/-
  CivicPulse.Services.Alone — what a service's method does when its request runs alone.

  - `commit_write`: a transaction of one statement.
  - `triage_quiet`: triage leaves the database and the statistics' entry as they are.
  - `untouched_alone`: a key that the code does not name stays as it is.
  - `incr_alone` … `record_alone`: a wrapped Redis command raises nothing of its own.
  - `wp_repository`: a session ends in a close, after a rollback if its body raised.
-/

import CivicPulse.Lang.Alone
import CivicPulse.Services.Figures
import CivicPulse.Services.Footprint
import CivicPulse.Store.Frame

namespace CivicPulse

open Text Lang

/-! ## Transactions -/

namespace Db

variable {db : Db} {i : Nat}

theorem view_idle (h : db.pending i = []) : db.view i = db.table := by
  rw [view, h]
  rfl

theorem commit_write (h : db.pending i = []) (wr : Write) (id : Uuid) :
    ((db.write i wr id).commit i).table = wr.apply db.table := by
  have hp : (db.write i wr id).pending i = [wr] := by simp [write, h]
  rw [commit, hp, view, hp]
  rfl

end Db

/-! ## Quiet operations -/

/-- Only operations away from the session and the statistics were performed. -/
structure Quiet (w w' : World) : Prop where
  db : w'.db = w.db
  log : ∃ evs, w'.log = evs ++ w.log ∧ ∀ ev ∈ evs, Aside ev.op

theorem Quiet.refl (w : World) : Quiet w w := ⟨rfl, [], rfl, fun _ h => by cases h⟩

theorem Quiet.trans {w w' w'' : World} (h : Quiet w w') (h' : Quiet w' w'') : Quiet w w'' := by
  obtain ⟨evs, he, ha⟩ := h.log
  obtain ⟨evs', he', ha'⟩ := h'.log
  refine ⟨h'.db.trans h.db, evs' ++ evs, by rw [he', he, List.append_assoc], fun ev hev => ?_⟩
  exact (List.mem_append.mp hev).elim (ha' ev) (ha ev)

section

variable [Platform] {E : Env} {i : Nat} {α : Type} {w : World}

theorem exec_aside {o : Op} (h : Aside o) (w : World) : Quiet w (World.exec E i o w).2 := by
  have hdb : (World.exec E i o w).2.db = w.db := by
    cases o with
    | triage role p text location => cases p <;> rfl
    | lrange key stop => cases h
    | incrExpire key ttl => cases h
    | ping => cases h
    | select q => cases h
    | selectForUpdate id => cases h
    | insert d => cases h
    | updateStatus id s => cases h
    | insertRow c => cases h
    | advisoryLock key => cases h
    | commit => cases h
    | rollback => cases h
    | close => cases h
    | _ => rfl
  exact ⟨hdb, [_], rfl, fun ev hev => by rw [List.mem_singleton.mp hev]; exact h⟩

theorem triage_quiet (svc : TriageService) (id t l : Str) (w : World) :
    wp (machine E) i (svc.triage id t l) (fun _ w' => Quiet w w') w :=
  wp_uses (M := machine E) (R := Quiet) Quiet.refl (fun _ _ _ => Quiet.trans) (fun _ w h => exec_aside h w)
    (triage_uses svc id t l)

/-! ## Parts -/

theorem clock_le_alone (p : Code α) (w : World) : wp (machine E) i p (fun _ w' => w.clock ≤ w'.clock) w :=
  wp_always (M := machine E) (R := fun w w' => w.clock ≤ w'.clock) (fun _ => le_refl _) (fun _ _ _ => le_trans)
    (fun o _ => World.clock_le_exec o) p w

/-- A key stays as it is that the code does not name. -/
theorem untouched_alone {k : Str} (hk : ∀ n, k ∉ E.evict n) {p : Code α} (hp : p.Uses fun o => ¬ Op.Touches k o) (w : World) :
    wp (machine E) i p (fun _ w' => w'.redis k = w.redis k) w :=
  wp_uses (M := machine E) (R := fun w w' => w'.redis k = w.redis k) (fun _ => rfl) (fun _ _ _ h h' => h'.trans h)
    (fun _ w ho => World.exec_untouched (hk w.ticks) ho) hp

theorem wp_ofExcept {r : Except Exc α} {Q : Post (machine E) α} : wp (machine E) i (ofExcept r) Q w ↔ Q r w := by
  cases r <;> rfl

theorem wp_exceptRedis {p : Code α} {h : Exc → Code α} {Q : Post (machine E) α} :
    wp (machine E) i (exceptRedis p h) Q w ↔ wp (machine E) i p (fun r w' => match r with
      | .ok a => Q (.ok a) w'
      | .error e => if e.isRedisError then wp (machine E) i (h e) Q w' else Q (.error e) w') w := by
  rw [exceptRedis, wp_tryCatch, wp, wp]
  rcases p.run (machine E) i w with ⟨e | a, w'⟩
  · simp only [Post.handle]
    split <;> rfl
  · rfl

/-! ## Redis wrappers -/

theorem incr_alone (k : Str) (w : World) : wp (machine E) i (JsonCache.incr k) (fun r _ => r = .ok ()) w := by
  have hans : Redis.Answers (World.exec E i (.incr k) w).1 := Redis.answers_faulty (fun _ => Redis.answers_incr) _ _
  rw [JsonCache.incr, wp_exceptRedis, wp_op]
  rcases hr : (World.exec E i (.incr k) w).1 with e | n
  · rw [ofExcept_error, Prog.map_raise, wp_raise]
    simp only [hans e hr, if_true]
    rfl
  · rfl

theorem push_alone (k : Str) (v : Json) (cap : Int) (w : World) :
    wp (machine E) i (JsonCache.pushCapped k v cap) (fun r _ => r = .ok ()) w := by
  have hans : Redis.Answers (World.exec E i (.pushTrim k v.dumps (cap - 1)) w).1 :=
    Redis.answers_faulty (fun _ => Redis.answers_pushTrim) _ _
  rw [JsonCache.pushCapped, wp_exceptRedis, wp_op, wp_ofExcept]
  rcases hr : (World.exec E i (.pushTrim k v.dumps (cap - 1)) w).1 with e | u
  · simp only [hans e hr, if_true]
    rfl
  · rfl

/-- The key is deleted, or the command fails unnoticed. -/
theorem delete_alone (ks : List Str) (w : World) : wp (machine E) i (JsonCache.delete ks) (fun r w' =>
    r = .ok () ∧ w'.db = w.db ∧ ∃ ans evs, w'.log = evs ++ ⟨i, .delete ks, ans⟩ :: w.log ∧ ∀ ev ∈ evs, Aside ev.op) w := by
  have hans : Redis.Answers (World.exec E i (.delete ks) w).1 := Redis.answers_faulty (fun _ => Redis.answers_ok _) _ _
  rw [JsonCache.delete, wp_exceptRedis, wp_op, wp_ofExcept]
  rcases hr : (World.exec E i (.delete ks) w).1 with e | u
  · simp only [hans e hr, if_true]
    exact ⟨rfl, rfl, _, [_], rfl, fun ev hev => by rw [List.mem_singleton.mp hev]; trivial⟩
  · exact ⟨rfl, rfl, _, [], rfl, fun ev hev => by cases hev⟩

/-- A `SET` that is accepted is the last operation. -/
theorem set_alone (k : Str) (v : Json) (ttl : Int) (w : World) : wp (machine E) i (JsonCache.set k v ttl) (fun r w' =>
    r = .ok () ∧ (E.fault w.ticks = none → 0 < ttl → w' = (World.exec E i (.set k v.dumps ttl) w).2)) w := by
  have hans : Redis.Answers (World.exec E i (.set k v.dumps ttl) w).1 := Redis.answers_faulty (fun _ => Redis.answers_set) _ _
  rw [JsonCache.set, wp_exceptRedis, wp_op, wp_ofExcept]
  rcases hr : (World.exec E i (.set k v.dumps ttl) w).1 with e | u
  · simp only [hans e hr, if_true]
    refine ⟨rfl, fun hf httl => ?_⟩
    rw [show (World.exec E i (.set k v.dumps ttl) w).1 =
      (Redis.faulty (E.fault w.ticks) (Redis.set (w.now E) k v.dumps ttl) (w.cache E)).1 from rfl, hf, Redis.faulty_none,
      Redis.set, if_pos httl] at hr
    cases hr
  · exact ⟨rfl, fun _ _ => rfl⟩

theorem get_alone (k : Str) (w : World) :
    wp (machine E) i (JsonCache.get k) (fun r _ => r = readAnswer (World.exec E i (.get k) w).1) w := by
  have hans : Redis.Answers (World.exec E i (.get k) w).1 := Redis.answers_faulty (fun _ => Redis.answers_get) _ _
  rw [JsonCache.get, wp_bind, wp_exceptRedis, wp_op, wp_ofExcept]
  rcases hr : (World.exec E i (.get k) w).1 with e | _ | raw
  · simp only [hans e hr, if_true]
    rfl
  · rfl
  · exact (wp_ofExcept (Q := fun r _ => r = readAnswer (.ok (some raw)))).mpr rfl

theorem record_alone (id : Str) (o : TriageOutcome) (w : World) :
    wp (machine E) i (TriageService.record id o) (fun r _ => r = .ok o) w := by
  rw [TriageService.record, wp_op, wp_bind]
  refine wp_mono (fun r w' h => ?_) (push_alone _ _ _ _)
  rw [h]
  rfl

/-- `JsonCache.get` where `GET` answers: one command, and what it answers is loaded. -/
theorem lookup_alone {k : Str} {a : Option Raw} {Q : Post (machine E) Json} (h : (World.exec E i (.get k) w).1 = .ok a) :
    wp (machine E) i (JsonCache.get k) Q w ↔ Q (readAnswer (.ok a)) (World.exec E i (.get k) w).2 := by
  rw [JsonCache.get, wp_bind, wp_exceptRedis, wp_op, wp_ofExcept]
  rw [show ((machine E).exec i (.get k) w).1 = .ok a from h]
  rcases a with _ | raw
  · rfl
  · exact wp_ofExcept

/-! ## Figures -/

/-- The next `n` operations find the database there. -/
def Env.Reached (E : Env) (ticks n : Nat) : Prop := ∀ m < n, E.dbFault (ticks + m) = none

omit [Platform] in
theorem Env.Reached.split {m n ticks : Nat} (h : E.Reached ticks (m + n)) : E.Reached ticks m ∧ E.Reached (ticks + m) n :=
  ⟨fun k hk => h k (by omega), fun k hk => by rw [Nat.add_assoc]; exact h (m + k) (by omega)⟩

/-- A `SELECT` reads the committed rows, or fails for a reason. -/
theorem select_alone {q : Query} (hidle : w.db.pending i = []) :
    (q.fits w.db.table = true ∧ (World.exec E i (.select q) w).1 = .ok (q.eval w.db.table)) ∨
      (∃ e, (World.exec E i (.select q) w).1 = .error e) ∧ (E.dbFault w.ticks = none → q.fits w.db.table = false) := by
  rw [← Db.view_idle hidle]
  show (q.fits (w.db.view i) = true ∧ (w.dbOp E (World.selectStmt i q)).1 = .ok (q.eval (w.db.view i))) ∨
    (∃ e, (w.dbOp E (World.selectStmt i q)).1 = .error e) ∧ (E.dbFault w.ticks = none → q.fits (w.db.view i) = false)
  unfold World.dbOp World.selectStmt
  split
  · rename_i hf
    exact .inr ⟨⟨_, rfl⟩, fun h => by rw [hf] at h; cases h⟩
  · split
    · rename_i hfits
      exact .inl ⟨hfits, rfl⟩
    · rename_i hfits
      exact .inr ⟨⟨_, rfl⟩, fun _ => by simpa using hfits⟩

/-- What reading in `n` operations ends in: a value of the table, or an exception for which
    there is a reason. The database is as it was. -/
def Reads (E : Env) (w : World) (n : Nat) (a : Table → α) : Post (machine E) α := fun r w' =>
  w'.db = w.db ∧ ((r = .ok (a w.db.table) ∧ w.db.table.rows.length < 2 ^ 63 ∧ w'.ticks = w.ticks + n) ∨
    (∃ e, r = .error e) ∧ (E.Reached w.ticks n → ¬ w.db.table.rows.length < 2 ^ 63))

/-- Reading goes on where it succeeded. -/
theorem reads_bind {β : Type} {p : Code α} {f : α → Code β} {a : Table → α} {b : Table → β} {n m : Nat}
    (hp : wp (machine E) i p (Reads E w n a) w)
    (hf : ∀ w', w'.db = w.db → w.db.table.rows.length < 2 ^ 63 →
      wp (machine E) i (f (a w.db.table)) (Reads E w' m b) w') :
    wp (machine E) i (p >>= f) (Reads E w (n + m) b) w := by
  rw [wp_bind]
  refine wp_mono (fun r w' h => ?_) hp
  obtain ⟨hdb, ⟨rfl, hlen, hticks⟩ | ⟨⟨e, rfl⟩, hwhy⟩⟩ := h
  · show wp (machine E) i (f (a w.db.table)) (Reads E w (n + m) b) w'
    refine wp_mono (fun r w'' h => ?_) (hf w' hdb hlen)
    obtain ⟨hdb', h⟩ := h
    rw [hdb] at h hdb'
    refine ⟨hdb', h.imp (fun h => ⟨h.1, h.2.1, by rw [h.2.2, hticks, Nat.add_assoc]⟩) fun h => ⟨h.1, fun hr => h.2 ?_⟩⟩
    rw [hticks]
    exact hr.split.2
  · exact ⟨hdb, .inr ⟨⟨e, rfl⟩, fun hr => hwhy hr.split.1⟩⟩

theorem reads_ret {a : Table → α} (h : w.db.table.rows.length < 2 ^ 63) :
    wp (machine E) i (.ret (a w.db.table)) (Reads E w 0 a) w := ⟨rfl, .inl ⟨rfl, h, rfl⟩⟩

/-- The queries whose counts have to fit. -/
theorem reads_select {q : Query} (hq : ∀ t, q.fits t = decide (t.rows.length < 2 ^ 63)) (hidle : w.db.pending i = []) :
    wp (machine E) i (.op (.select q) ofExcept) (Reads E w 1 q.eval) w := by
  rw [wp_op, wp_ofExcept]
  refine ⟨(World.select_cases q).1, (select_alone hidle).imp (fun h => ⟨h.2, ?_, rfl⟩) fun h => ⟨h.1, fun hr => ?_⟩⟩
  · have := h.1
    rwa [hq, decide_eq_true_eq] at this
  · have := h.2 (hr 0 Nat.one_pos)
    rwa [hq, decide_eq_false_iff_not] at this

theorem reads_grouped (col : Table.Column) (hidle : w.db.pending i = []) :
    wp (machine E) i (Repository.grouped col) (Reads E w 1 fun t => groupDict (t.groupBy col)) w :=
  reads_bind (m := 0) (reads_select (q := .groupBy col) (fun _ => rfl) hidle) fun w' hdb hlen => by
    rw [← hdb] at hlen ⊢
    exact reads_ret (a := fun t => groupDict (t.groupBy col)) hlen

/-- Alone, the five statements read one table. -/
theorem reads_aggregates (hidle : w.db.pending i = []) :
    wp (machine E) i Repository.aggregates (Reads E w 5 fun t => (Figures.of t).aggregates) w := by
  have idle : ∀ {w' : World}, w'.db = w.db → w'.db.pending i = [] := fun h => by rw [h]; exact hidle
  refine reads_bind (n := 1) (m := 4) (reads_select (q := .countAvg) (fun _ => rfl) hidle) fun w₁ h₁ hlen => ?_
  refine reads_bind (n := 1) (m := 3) (reads_grouped _ (idle h₁)) fun w₂ h₂ _ => ?_
  refine reads_bind (n := 1) (m := 2) (reads_grouped _ (idle (h₂.trans h₁))) fun w₃ h₃ _ => ?_
  refine reads_bind (n := 1) (m := 1) (reads_grouped _ (idle (h₃.trans (h₂.trans h₁)))) fun w₄ h₄ _ => ?_
  refine reads_bind (n := 1) (m := 0) (reads_grouped _ (idle (h₄.trans (h₃.trans (h₂.trans h₁))))) fun w₅ h₅ _ => ?_
  rw [h₁, h₂.trans h₁, h₃.trans (h₂.trans h₁), h₄.trans (h₃.trans (h₂.trans h₁))]
  have hdb := h₅.trans (h₄.trans (h₃.trans (h₂.trans h₁)))
  rw [← hdb] at hlen ⊢
  exact reads_ret (a := fun t => (Figures.of t).aggregates) hlen

/-! ## Sessions -/

/-- The session's end, for each way its body ended. -/
def ended (E : Env) (i : Nat) (r : Except Exc α) (w : World) : World :=
  match r with
  | .ok _ => (World.exec E i .close w).2
  | .error _ => (World.exec E i .close (World.exec E i .rollback w).2).2

theorem wp_repository {body : Code α} {Q : Post (machine E) α} :
    wp (machine E) i (repository body) Q w ↔ wp (machine E) i body (fun r w' => Q r (ended E i r w')) w := by
  rw [repository, wp_finally, wp_tryCatch, wp, wp]
  rcases body.run (machine E) i w with ⟨_ | _, _⟩ <;> rfl

theorem run_repository (body : Code α) (w : World) : ((repository body).run (machine E) i w).1 = (body.run (machine E) i w).1 := by
  have h : wp (machine E) i (repository body) (fun r _ => r = (body.run (machine E) i w).1) w := by
    rw [wp_repository]
    rfl
  exact h

/-- The end of a session commits nothing. -/
theorem ended_table (r : Except Exc α) (w : World) : (ended E i r w).db.table = w.db.table := by
  cases r <;> rfl

theorem ended_idle (r : Except Exc α) (w : World) : (ended E i r w).db.pending i = [] := by
  cases r with
  | ok a => exact Function.update_self i [] w.db.pending
  | error e => exact Function.update_self i [] (w.db.finish i).pending

theorem ended_log (r : Except Exc α) (w : World) :
    ∃ evs, (ended E i r w).log = evs ++ w.log ∧ ∀ ev ∈ evs, ev.op = .rollback ∨ ev.op = .close := by
  cases r with
  | ok a => exact ⟨[⟨i, .close, ()⟩], rfl, fun ev hev => by rw [List.mem_singleton.mp hev]; exact .inr rfl⟩
  | error e =>
    refine ⟨[⟨i, .close, ()⟩, ⟨i, .rollback, ()⟩], rfl, fun ev hev => ?_⟩
    rcases List.mem_cons.mp hev with h | h
    · exact .inr (by rw [h])
    · exact .inl (by rw [List.mem_singleton.mp h])

end

end CivicPulse
