/-
  CivicPulse.Store.Frame — which Redis keys an operation can change, and what it does to
  its own key while Redis is healthy.

  - `exec_untouched`: an operation leaves every key alone that it does not name, whether its
    command fails or not.
  - `get_healthy`, `set_healthy`, `delete_healthy`: a command of a healthy Redis.
  - `exec_table`, `exec_pending`, `exec_grows`: only a commit changes the committed rows, it
    takes none of them away, and a session's writes are its own.
  - `exec_advisory`, `exec_advisory_kept`, `exec_locks`: who can hold a lock after an operation.
  - `clock_le_exec`: time does not go back.
-/

import CivicPulse.Store.World

namespace CivicPulse

open Text Lang

/-! ## Commands on another key -/

namespace Redis

variable {now : ℚ} {r : Redis} {key k : Str}

theorem drop_ne {keys : List Str} (h : k ∉ keys) : r.drop keys k = r k := if_neg h

theorem set_ne {val : Str} {ex : Int} (h : k ≠ key) : (set now key val ex r).2 k = r k := by
  unfold set
  split
  · exact put_ne _ h
  · rfl

theorem incr_ne (h : k ≠ key) : (incr now key r).2 k = r k := by
  unfold incr
  split
  · exact put_ne _ h
  · exact put_ne _ h
  · rfl

theorem expire_ne {ttl : Int} (h : k ≠ key) : expire now key ttl r k = r k := by
  rcases hl : r.live now key with _ | e
  · simp only [expire, hl]
  · simp only [expire, hl]
    split
    · exact put_ne _ h
    · exact drop_ne (by simpa using h)

theorem incrExpire_ne {ttl : Int} (h : k ≠ key) : (incrExpire now key ttl r).2 k = r k := (expire_ne h).trans (incr_ne h)

theorem pushTrim_ne {val : Str} {stop : Int} (h : k ≠ key) : (pushTrim now key val stop r).2 k = r k := by
  unfold pushTrim
  split
  · exact put_ne _ h
  · exact put_ne _ h
  · rfl

/-- What `GET` answers depends on its key only. -/
theorem get_congr {r' : Redis} (h : r key = r' key) : (get now key r).1 = (get now key r').1 := by
  have hl : r.live now key = r'.live now key := by rw [live, live, h]
  unfold get
  rw [hl]
  split <;> rfl

end Redis

/-! ## Operations -/

/-- The operation writes or deletes the key. -/
def Op.Touches (k : Str) : Op → Prop
  | set key _ _ | incr key | pushTrim key _ _ | incrExpire key _ => k = key
  | delete keys => k ∈ keys
  | _ => False

/-- The operation takes the row's lock. -/
def Op.Locks (w : World) (i : Nat) (id : Uuid) : Op → Prop
  | .selectForUpdate id' => id' = id ∧ id ∈ (w.db.view i).ids
  | .insert d => d.id = id
  | .updateStatus id' _ => id' = id
  | .insertRow c => c.id = id
  | _ => False

namespace World

variable {E : Env} {i : Nat} {w : World} {k : Str}

theorem redisOp_untouched {α : Type} {cmd : Redis → Except Exc α × Redis} (he : k ∉ E.evict w.ticks)
    (hc : ∀ r : Redis, (cmd r).2 k = r k) : (w.redisOp E cmd).2.1 k = w.redis k := by
  have hcache : w.cache E k = w.redis k := Redis.drop_ne he
  show (Redis.faulty (E.fault w.ticks) cmd (w.cache E)).2 k = w.redis k
  rcases Redis.faulty_cases (E.fault w.ticks) cmd (w.cache E) with h | ⟨_, -, h | h⟩
  · rw [h, hc, hcache]
  · rw [h, hcache]
  · rw [h, hc, hcache]

variable [Platform]

/-- A key that is not evicted stays as it is under an operation that does not name it. -/
theorem exec_untouched {o : Op} (he : k ∉ E.evict w.ticks) (ho : ¬ o.Touches k) :
    (exec E i o w).2.redis k = w.redis k := by
  have hcache : w.cache E k = w.redis k := Redis.drop_ne he
  cases o with
  | get key => exact redisOp_untouched he fun r => by rw [Redis.get_snd]
  | set key v ex => exact redisOp_untouched he fun r => Redis.set_ne ho
  | delete keys => exact redisOp_untouched he fun r => Redis.drop_ne ho
  | incr key => exact redisOp_untouched he fun r => Redis.incr_ne ho
  | pushTrim key v n => exact redisOp_untouched he fun r => Redis.pushTrim_ne ho
  | lrange key stop => exact redisOp_untouched he fun r => by rw [Redis.lrange_snd]
  | incrExpire key t => exact redisOp_untouched he fun r => Redis.incrExpire_ne ho
  | ping => exact redisOp_untouched he fun r => rfl
  | select q => exact (congrFun (dbOp_cache _) k).trans hcache
  | selectForUpdate id => exact (congrFun (dbOp_cache _) k).trans hcache
  | insert d => exact (congrFun (dbOp_cache _) k).trans hcache
  | updateStatus id s => exact (congrFun (dbOp_cache _) k).trans hcache
  | insertRow c => exact (congrFun (dbOp_cache _) k).trans hcache
  | advisoryLock key => exact (congrFun (dbOp_cache _) k).trans hcache
  | commit => exact (congrFun (dbOp_cache _) k).trans hcache
  | triage role p text location => cases p <;> exact hcache
  | _ => exact hcache

/-! ## The database -/

/-- Only a commit changes the committed rows. -/
theorem exec_table {o : Op} (ho : o ≠ .commit) : (exec E i o w).2.db.table = w.db.table := by
  have h := exec_db (E := E) (i := i) (w := w) o
  generalize (exec E i o w).2.db = db' at h ⊢
  cases h with
  | commit => exact absurd rfl ho
  | _ => rfl

omit [Platform] in
theorem finish_pending {j : Nat} (hj : j ≠ i) (db : Db) : (db.finish i).pending j = db.pending j := Function.update_of_ne hj _ _

omit [Platform] in
/-- What a commit leaves besides the table and the commits. -/
theorem commit_finish (db : Db) : (db.commit i).pending = (db.finish i).pending ∧ (db.commit i).locks = (db.finish i).locks ∧
    (db.commit i).advisory = (db.finish i).advisory := by
  rw [Db.commit]
  split <;> exact ⟨rfl, rfl, rfl⟩

/-- A session's writes are its own. -/
theorem exec_pending {j : Nat} (hj : j ≠ i) (o : Op) : (exec E i o w).2.db.pending j = w.db.pending j := by
  have hwrite : ∀ wr id, (w.db.write i wr id).pending j = w.db.pending j := fun _ _ => Function.update_of_ne hj _ _
  have h := exec_db (E := E) (i := i) (w := w) o
  generalize (exec E i o w).2.db = db' at h ⊢
  cases h with
  | same => rfl
  | lock id _ => rfl
  | insert d c _ _ => exact hwrite _ _
  | updateStatus id s at_ => exact hwrite _ _
  | insertRow c _ => exact hwrite _ _
  | advisoryLock key => rfl
  | commit => rw [(commit_finish _).1, finish_pending hj]
  | rollback => exact finish_pending hj _
  | close => exact finish_pending hj _

/-- The rows and the commits stay, or the session's writes are committed. -/
theorem exec_committed (o : Op) :
    ((exec E i o w).2.db.table = w.db.table ∧ (exec E i o w).2.db.commits = w.db.commits) ∨
      o = .commit ∧ (exec E i o w).2.db.table = w.db.table.after (w.db.pending i) ∧
        (exec E i o w).2.db.commits = ⟨i, w.db.pending i, w.db.table.after (w.db.pending i)⟩ :: w.db.commits := by
  have h := exec_db (E := E) (i := i) (w := w) o
  generalize (exec E i o w).2.db = db' at h ⊢
  cases h with
  | commit =>
    rw [Db.commit]
    split
    · exact .inl ⟨rfl, rfl⟩
    · exact .inr ⟨rfl, rfl, rfl⟩
  | _ => exact .inl ⟨rfl, rfl⟩

/-- A session inserts the rows that it is told to. -/
theorem mem_pending {o : Op} {c : Complaint} (h : .insert c ∈ (exec E i o w).2.db.pending i) :
    .insert c ∈ w.db.pending i ∨ (∃ d, o = .insert d ∧ c.id = d.id) ∨ o = .insertRow c := by
  have hwrite : ∀ wr id, .insert c ∈ (w.db.write i wr id).pending i → .insert c ∈ w.db.pending i ∨ .insert c = wr := by
    intro wr id hm
    rw [show (w.db.write i wr id).pending i = w.db.pending i ++ [wr] from Function.update_self .., List.mem_append,
      List.mem_singleton] at hm
    exact hm
  have hfinish : (w.db.finish i).pending i = [] := Function.update_self ..
  have hs := exec_db (E := E) (i := i) (w := w) o
  generalize (exec E i o w).2.db = db' at hs h
  cases hs with
  | same => exact .inl h
  | lock id _ => exact .inl h
  | insert d c' hd _ =>
    refine (hwrite _ _ h).imp_right fun hc => .inl ⟨d, rfl, ?_⟩
    cases hc
    exact hd
  | updateStatus id s at_ => exact (hwrite _ _ h).imp_right nofun
  | insertRow c' _ =>
    refine (hwrite _ _ h).imp_right fun hc => .inr ?_
    cases hc
    rfl
  | advisoryLock key => exact .inl h
  | commit =>
    rw [(commit_finish _).1, hfinish] at h
    cases h
  | rollback =>
    rw [hfinish] at h
    cases h
  | close =>
    rw [hfinish] at h
    cases h

/-! ## Locks -/

omit [Platform] in
/-- A lock that session `i` releases is another's, if it is held afterwards. -/
theorem released_iff {holder : Option Nat} {j : Nat} :
    (if holder = some i then none else holder) = some j ↔ j ≠ i ∧ holder = some j := by
  split
  · rename_i h
    rw [h, Option.some.injEq]
    exact ⟨nofun, fun hj => absurd hj.2.symm hj.1⟩
  · rename_i h
    exact ⟨fun hj => ⟨fun e => h (e ▸ hj), hj⟩, fun hj => hj.2⟩

omit [Platform] in
theorem finish_advisory {db : Db} {key : Int} {j : Nat} : (db.finish i).advisory key = some j ↔ j ≠ i ∧ db.advisory key = some j :=
  released_iff

omit [Platform] in
theorem finish_locks {db : Db} {id : Uuid} {j : Nat} : (db.finish i).locks id = some j ↔ j ≠ i ∧ db.locks id = some j :=
  released_iff

/-- Another session keeps its advisory lock. -/
theorem exec_advisory_kept {o : Op} {key : Int} {j : Nat} (hj : j ≠ i) (hen : enabled i o w = true)
    (h : w.db.advisory key = some j) : (exec E i o w).2.db.advisory key = some j := by
  have hs := exec_db (E := E) (i := i) (w := w) o
  generalize (exec E i o w).2.db = db' at hs ⊢
  cases hs with
  | advisoryLock key' =>
    have hne : key ≠ key' := by
      intro e
      have hfree : (w.db.advisory key').all (· == i) = true := hen
      rw [← e, h, Option.all_some, beq_iff_eq] at hfree
      exact hj hfree
    exact (Function.update_of_ne hne _ _).trans h
  | commit => rw [(commit_finish _).2.2, finish_advisory]; exact ⟨hj, h⟩
  | rollback => exact finish_advisory.mpr ⟨hj, h⟩
  | close => exact finish_advisory.mpr ⟨hj, h⟩
  | _ => exact h

/-- An advisory lock was held, or has been taken. -/
theorem exec_advisory {o : Op} {key : Int} {j : Nat} (h : (exec E i o w).2.db.advisory key = some j) :
    w.db.advisory key = some j ∨ j = i ∧ o = .advisoryLock key := by
  have hs := exec_db (E := E) (i := i) (w := w) o
  generalize (exec E i o w).2.db = db' at hs h
  cases hs with
  | advisoryLock key' =>
    by_cases e : key = key'
    · subst e
      exact .inr ⟨Option.some.inj (h.symm.trans (Function.update_self ..)), rfl⟩
    · exact .inl ((Function.update_of_ne e _ _).symm.trans h)
  | commit => rw [(commit_finish _).2.2, finish_advisory] at h; exact .inl h.2
  | rollback => exact .inl (finish_advisory.mp h).2
  | close => exact .inl (finish_advisory.mp h).2
  | _ => exact .inl h

/-- A row's lock was held, or has been taken. -/
theorem exec_locks {o : Op} {id : Uuid} {j : Nat} (h : (exec E i o w).2.db.locks id = some j) :
    w.db.locks id = some j ∨ j = i ∧ o.Locks w i id := by
  have hlock : ∀ id', w.db.lock i id' id = some j → w.db.locks id = some j ∨ j = i ∧ id' = id := by
    intro id' hl
    by_cases e : id = id'
    · subst e
      exact .inr ⟨Option.some.inj (hl.symm.trans (Function.update_self ..)), rfl⟩
    · exact .inl ((Function.update_of_ne e _ _).symm.trans hl)
  have hs := exec_db (E := E) (i := i) (w := w) o
  generalize (exec E i o w).2.db = db' at hs h
  cases hs with
  | same => exact .inl h
  | lock id' hid =>
    refine (hlock id' h).imp_right fun hl => ⟨hl.1, hl.2, ?_⟩
    rw [← hl.2]
    exact hid
  | insert d c hd _ => exact (hlock _ h).imp_right fun hl => ⟨hl.1, hd.symm.trans hl.2⟩
  | updateStatus id' s at_ => exact hlock _ h
  | insertRow c _ => exact hlock _ h
  | advisoryLock key => exact .inl h
  | commit => rw [(commit_finish _).2.1, finish_locks] at h; exact .inl h.2
  | rollback => exact .inl (finish_locks.mp h).2
  | close => exact .inl (finish_locks.mp h).2

theorem exec_grows (o : Op) : w.db.table.Grows (exec E i o w).2.db.table := by
  by_cases ho : o = .commit
  · subst ho
    rcases commit_cases (E := E) (i := i) (w := w) with ⟨h, -⟩ | ⟨-, h⟩
    · rw [h]
      exact .refl _
    · rw [h, Db.commit]
      split
      · exact .refl _
      · exact .after _ _
  · rw [exec_table ho]
    exact .refl _

/-- What is read under a key has not expired. -/
theorem exec_get_live {raw : Raw} (h : (exec E i (.get k) w).1 = .ok (some raw)) :
    ∃ e, w.redis k = some e ∧ (∀ t, e.expires = some t → w.now E < t) ∧
      (e.val = .str raw ∨ ∃ n, e.val = .int n ∧ raw = .text (intText n)) := by
  have hget : (Redis.get (w.now E) k (w.cache E)).1 = .ok (some raw) := by
    rcases Redis.faulty_cases (E.fault w.ticks) (Redis.get (w.now E) k) (w.cache E) with hf | ⟨cls, hf, -⟩
    · rw [← hf]
      exact h
    · rw [show (exec E i (.get k) w).1 = _ from hf] at h
      cases h
  obtain ⟨e, hl, hv⟩ := Redis.get_ok hget
  obtain ⟨he, hexpires⟩ := Option.filter_eq_some_iff.mp hl
  refine ⟨e, cache_some he, fun t ht => ?_, hv⟩
  rw [ht, Option.all_some] at hexpires
  exact of_decide_eq_true hexpires

/-- What stands under a key after a `SET` stood there, or has been put for its lifetime. -/
theorem exec_set_some {key v : Str} {ex : Int} {e : Entry} (h : (exec E i (.set key v ex) w).2.redis k = some e) :
    w.redis k = some e ∨ k = key ∧ e = ⟨.str (.text v), some (w.now E + ex)⟩ := redisOp_some (fun _ hr => Redis.set_some hr) h

theorem mem_trace_exec {o : Op} {j : Nat} {d : Σ o : Op, o.Ans} (h : d ∈ w.trace j) : d ∈ (exec E i o w).2.trace j :=
  mem_trace.mpr (mem_log_exec (mem_trace.mp h))

omit [Platform] in
/-- What a command keeps of an entry, it keeps however it comes out. -/
theorem redisOp_keeps {α : Type} {cmd : Redis → Except Exc α × Redis} {V : Entry → Prop}
    (hc : ∀ r : Redis, (∀ e, r k = some e → V e) → ∀ e, (cmd r).2 k = some e → V e) (h : ∀ e, w.redis k = some e → V e) :
    ∀ e, (w.redisOp E cmd).2.1 k = some e → V e := by
  have hcache : ∀ e, w.cache E k = some e → V e := fun e he => h e (cache_some he)
  intro e he
  rcases Redis.faulty_cases (E.fault w.ticks) cmd (w.cache E) with hf | ⟨_, -, hf | hf⟩
  · exact hc _ hcache e (by rw [← hf]; exact he)
  · exact hcache e (by rw [← hf]; exact he)
  · exact hc _ hcache e (by rw [← hf]; exact he)

/-- A list that is read is the beginning of what is there. -/
theorem exec_lrange {stop : Int} {l : List Str} (h : (exec E i (.lrange k stop) w).1 = .ok l) :
    l = [] ∨ ∃ e l', w.redis k = some e ∧ e.val = .list l' ∧ l = l'.take (stop + 1).toNat := by
  have hread : (Redis.lrange (w.now E) k stop (w.cache E)).1 = .ok l := by
    rcases Redis.faulty_cases (E.fault w.ticks) (Redis.lrange (w.now E) k stop) (w.cache E) with hf | ⟨cls, hf, -⟩
    · rw [← hf]
      exact h
    · rw [show (exec E i (.lrange k stop) w).1 = _ from hf] at h
      cases h
  unfold Redis.lrange at hread
  split at hread
  · exact .inl (Except.ok.inj hread).symm
  · rename_i l' t hl
    exact .inr ⟨_, l', cache_some (Redis.live_some hl), rfl, (Except.ok.inj hread).symm⟩
  · cases hread

theorem clock_le_exec (o : Op) : w.clock ≤ (exec E i o w).2.clock := le_add_of_nonneg_right (E.delay_nonneg w.ticks)

/-! ## A healthy Redis -/

theorem get_healthy (hf : E.fault w.ticks = none) (he : k ∉ E.evict w.ticks) :
    (exec E i (.get k) w).1 = (Redis.get (w.now E) k w.redis).1 := by
  show (Redis.faulty (E.fault w.ticks) (Redis.get (w.now E) k) (w.cache E)).1 = _
  rw [hf]
  exact Redis.get_congr (Redis.drop_ne he)

theorem set_healthy (hf : E.fault w.ticks = none) {v : Str} {ex : Int} (hex : 0 < ex) :
    (exec E i (.set k v ex) w).2.redis k = some ⟨.str (.text v), some (w.now E + ex)⟩ := by
  show (Redis.faulty (E.fault w.ticks) (Redis.set (w.now E) k v ex) (w.cache E)).2 k = _
  rw [hf, Redis.faulty_none, Redis.set, if_pos hex]
  exact Redis.put_self _

/-- A lifetime that is not positive is refused. -/
theorem set_refused (he : k ∉ E.evict w.ticks) {v : Str} {ex : Int} (hex : ¬ 0 < ex) :
    (exec E i (.set k v ex) w).2.redis k = w.redis k :=
  redisOp_untouched he fun r => by rw [Redis.set, if_neg hex]

theorem delete_healthy (hf : E.fault w.ticks = none) {keys : List Str} (hk : k ∈ keys) :
    (exec E i (.delete keys) w).2.redis k = none := by
  show (Redis.faulty (E.fault w.ticks) (Redis.delete keys) (w.cache E)).2 k = _
  rw [hf]
  exact if_pos hk

end World

end CivicPulse
