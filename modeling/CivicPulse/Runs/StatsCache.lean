/-
  CivicPulse.Runs.StatsCache — statistics behind the cache. A writer commits, drops the
  cached statistics and returns; a reader that misses reads the table and puts what it read
  in the cache.

  - `stats_fresh`: if no writer both commits and drops the statistics between a reader's
    first `SELECT` and its `SET`, then whoever asks after a writer has returned is given
    figures of versions that include the write.
  - `stats_stale`: a reader whose `SET` comes after the drop leaves the old figures for
    everyone.

  The newest commit whose writer has dropped the statistics bounds from below what may be
  in the cache.
-/

import CivicPulse.Runs.Statistics

namespace CivicPulse

open Text Lang

/-! ## What a run has done -/

namespace Event

/-- A commit that was carried out. -/
def commits : Event → Bool
  | ⟨_, .commit, .ok _⟩ => true
  | _ => false

/-- The cached statistics are dropped. -/
def drops (e : Event) : Bool :=
  match e.op with
  | .delete ks => ks.contains STATS_KEY
  | _ => false

/-- Request `i` begins to read the table's figures. -/
def counts (i : Nat) (e : Event) : Bool :=
  e.tid == i && match e.op with
    | .select .countAvg => true
    | _ => false

theorem drops_iff {i : Nat} {o : Op} {a : o.Ans} : (⟨i, o, a⟩ : Event).drops = true ↔ ∃ ks, o = .delete ks ∧ STATS_KEY ∈ ks := by
  cases o <;> simp [drops]

theorem counts_iff {i j : Nat} {o : Op} {a : o.Ans} : (⟨j, o, a⟩ : Event).counts i = true ↔ j = i ∧ o = .select .countAvg := by
  cases o with
  | select q => cases q <;> simp [counts]
  | _ => simp [counts]

end Event

/-- What happened since request `i` began to read the table's figures, newest first. -/
def since (i : Nat) (log : List Event) : List Event := log.takeWhile fun e => !e.counts i

/-- No writer has both committed and dropped the statistics since request `i` began to read
    them; asked of it when it puts them in the cache. -/
def undisturbed (i : Nat) (o : Op) (w : World) : Bool :=
  match o with
  | .set k _ _ => k != STATS_KEY ||
      (since i w.log).all fun e => !(e.commits && (since i w.log).any fun d => d.tid == e.tid && d.drops)
  | _ => true

/-- The commit's writer has dropped the statistics. -/
def settled (log : List Event) (k : Commit) : Bool := log.any fun e => e.tid == k.tid && e.drops

/-- The version that the newest settled commit left. -/
def newestSettled (log : List Event) (ks : List Commit) : Nat := (ks.dropWhile fun k => !settled log k).length

theorem settled_iff {log : List Event} {k : Commit} : settled log k = true ↔ ∃ e ∈ log, e.tid = k.tid ∧ e.drops = true := by
  simp [settled]

theorem newestSettled_le (log : List Event) (ks : List Commit) : newestSettled log ks ≤ ks.length :=
  (List.dropWhile_suffix _).length_le

/-- Newer commits, none of them settled. -/
theorem newestSettled_take {log : List Event} {ks : List Commit} {m : Nat} (h : ∀ k ∈ ks.take m, settled log k = false) :
    newestSettled log ks ≤ ks.length - m := by
  induction ks generalizing m with
  | nil => exact Nat.zero_le _
  | cons k ks ih =>
    cases m with
    | zero => exact newestSettled_le log _
    | succ m =>
      have hk : settled log k = false := h k (by simp)
      have hks := ih (m := m) fun k' hk' => h k' (by simp [hk'])
      rw [newestSettled, List.dropWhile_cons_of_pos (by simp [hk]), List.length_cons, Nat.add_sub_add_right]
      exact hks

theorem lt_newestSettled {log : List Event} {newer older : List Commit} {k : Commit} (h : settled log k = true) :
    older.length < newestSettled log (newer ++ k :: older) := by
  induction newer with
  | nil =>
    rw [List.nil_append, newestSettled, List.dropWhile_cons_of_neg (by simp [h])]
    exact Nat.lt_succ_self _
  | cons k' newer ih =>
    rw [List.cons_append, newestSettled, List.dropWhile_cons]
    split
    · exact ih
    · simp only [List.length_cons, List.length_append]
      omega

/-- One event, and the commit it may be, leave the newest settled commit where it is. -/
theorem newestSettled_cons {e : Event} {log : List Event} (he : e.drops = false) (ks : List Commit) :
    newestSettled (e :: log) ks = newestSettled log ks := by
  have hsettled : ∀ k, settled (e :: log) k = settled log k := by
    intro k
    simp [settled, he]
  simp only [newestSettled, hsettled]

theorem newestSettled_commit {log : List Event} {k : Commit} (h : settled log k = false) (ks : List Commit) :
    newestSettled log (k :: ks) = newestSettled log ks := by
  rw [newestSettled, List.dropWhile_cons_of_pos (by simp [h])]
  rfl

theorem newestSettled_mono {log : List Event} (e : Event) (ks : List Commit) :
    newestSettled log ks ≤ newestSettled (e :: log) ks := by
  induction ks with
  | nil => exact le_refl _
  | cons k ks ih =>
    rw [newestSettled, newestSettled, List.dropWhile_cons, List.dropWhile_cons]
    have hle := newestSettled_le log ks
    by_cases hk : settled log k = true
    · have hk' : settled (e :: log) k = true := by
        obtain ⟨d, hd, h⟩ := settled_iff.mp hk
        exact settled_iff.mpr ⟨d, List.mem_cons_of_mem _ hd, h⟩
      simp [hk, hk']
    · by_cases hk' : settled (e :: log) k = true
      · simp only [hk, hk', Bool.not_true, Bool.false_eq_true, if_false, Bool.not_false, if_true, List.length_cons]
        exact hle.trans (Nat.le_succ _)
      · simp only [hk, hk', Bool.not_false, if_true]
        exact ih

namespace Request

open Function (update)

/-! ## One event -/

/-- The commits after version `b` were made, and their writers have dropped the statistics
    if at all, since request `i` began to read the figures. -/
def Late (i : Nat) (w : World) (b : Nat) : Prop :=
  ∀ k ∈ w.db.commits.take (w.db.commits.length - b), (∃ e ∈ since i w.log, e.tid = k.tid ∧ e.commits = true) ∧
    ∀ d ∈ w.log, d.tid = k.tid → d.drops = true → d ∈ since i w.log

/-- What one operation adds to the log and to the commits. -/
structure Ran (w w' : World) (e : Event) : Prop where
  log : w'.log = e :: w.log
  commits : w'.db.commits = w.db.commits ∨ ∃ k, k.tid = e.tid ∧ w'.db.commits = k :: w.db.commits ∧ e.commits = true ∧
    ∀ d ∈ w'.log, d.tid = e.tid → d.drops = false

def newest (w : World) : Nat := newestSettled w.log w.db.commits

variable {i : Nat} {w w' : World} {e : Event} {b : Nat}

theorem Ran.newest_eq (h : Ran w w' e) (he : e.drops = false) : newest w' = newest w := by
  rcases h.commits with hc | ⟨k, hk, hc, -, hd⟩
  · rw [newest, newest, hc, h.log, newestSettled_cons he]
  · have hunsettled : settled w'.log k = false := by
      by_contra hs
      obtain ⟨d, hmem, htid, hdrops⟩ := settled_iff.mp (by simpa using hs)
      rw [hd d hmem (htid.trans hk)] at hdrops
      cases hdrops
    rw [newest, newest, hc, newestSettled_commit hunsettled, h.log, newestSettled_cons he]

theorem Ran.newest_le (h : Ran w w' e) : newest w ≤ newest w' := by
  cases he : e.drops with
  | false => exact (h.newest_eq he).ge
  | true =>
    rcases h.commits with hc | ⟨k, -, -, -, hd⟩
    · rw [newest, newest, hc, h.log]
      exact newestSettled_mono e _
    · rw [hd e (by rw [h.log]; exact List.mem_cons_self) rfl] at he
      cases he

theorem Ran.late (h : Ran w w' e) (hcounts : e.counts i = false) (hlate : Late i w b) : Late i w' b := by
  have hsince : since i w'.log = e :: since i w.log := by
    rw [since, h.log, List.takeWhile_cons_of_pos (by simp [hcounts])]
    rfl
  have hold : ∀ k ∈ w.db.commits.take (w.db.commits.length - b),
      (∃ d ∈ since i w'.log, d.tid = k.tid ∧ d.commits = true) ∧
        ∀ d ∈ w'.log, d.tid = k.tid → d.drops = true → d ∈ since i w'.log := by
    intro k hk
    obtain ⟨⟨d, hd, hdk⟩, hdrops⟩ := hlate k hk
    rw [hsince, h.log]
    refine ⟨⟨d, List.mem_cons_of_mem _ hd, hdk⟩, fun d hd htid hdr => ?_⟩
    rcases List.mem_cons.mp hd with rfl | hd
    · exact List.mem_cons_self
    · exact List.mem_cons_of_mem _ (hdrops d hd htid hdr)
  rcases h.commits with hc | ⟨k, hk, hc, hcommit, hd⟩
  · rw [Late, hc]
    exact hold
  · intro k' hk'
    rw [hc, List.length_cons] at hk'
    have hcases : k' = k ∨ k' ∈ w.db.commits.take (w.db.commits.length - b) := by
      by_cases hb : b ≤ w.db.commits.length
      · rw [Nat.sub_add_comm hb, List.take_succ_cons] at hk'
        exact List.mem_cons.mp hk'
      · rw [Nat.sub_eq_zero_of_le (by omega)] at hk'
        cases hk'
    rcases hcases with rfl | hk'
    · refine ⟨⟨e, by rw [hsince]; exact List.mem_cons_self, hk.symm, hcommit⟩, fun d hmem htid hdr => ?_⟩
      rw [hd d hmem (htid.trans hk)] at hdr
      cases hdr
    · exact hold k' hk'

/-- A reader that nobody has disturbed has read nothing older than what is settled. -/
theorem newest_le_of_undisturbed {v : Str} {ex : Int} (hg : undisturbed i (.set STATS_KEY v ex) w = true) (h : Late i w b) :
    newest w ≤ b := by
  have hunsettled : ∀ k ∈ w.db.commits.take (w.db.commits.length - b), settled w.log k = false := by
    intro k hk
    by_contra hs
    obtain ⟨d, hd, htid, hdrops⟩ := settled_iff.mp (by simpa using hs)
    obtain ⟨⟨c, hc, hck, hcommit⟩, hlate⟩ := h k hk
    have hsince := hlate d hd htid hdrops
    simp only [undisturbed, bne_self_eq_false, Bool.false_or, List.all_eq_true] at hg
    have hno := hg c hc
    simp only [hcommit, Bool.true_and, Bool.not_eq_true', List.any_eq_false, Bool.and_eq_true, beq_iff_eq, not_and] at hno
    exact hno d hsince (htid.trans hck.symm) hdrops
  have hle := newestSettled_take hunsettled
  have := newestSettled_le w.log w.db.commits
  rw [newest]
  omega

/-! ## The invariant -/

/-- What holds of the dates of request `i`. The requests of `S` began before version `n` was
    settled. -/
structure Dates (n : Nat) (S : Nat → Prop) (w : World) (i : Nat) (l : Loc) : Prop where
  undropped : l.phase.Open → ∀ e ∈ w.log, e.tid = i → e.drops = false
  dropped : l.cleared = true → ∃ e ∈ w.log, e.tid = i ∧ e.drops = true
  floor : l.floor ≤ newest w
  begun : ¬ S i → n ≤ l.floor
  fresh : l.seen ≠ none ∨ l.reads ≠ [] → l.floor ≤ l.base.getD 0
  late : ∀ b, l.reads ≠ [] → l.base = some b → Late i w b

/-- Another request's operation. -/
theorem Dates.frame {n : Nat} {S : Nat → Prop} {l : Loc} (h : Dates n S w i l) (hran : Ran w w' e) (hi : e.tid ≠ i) :
    Dates n S w' i l where
  undropped hp d hd htid := by
    rw [hran.log] at hd
    rcases List.mem_cons.mp hd with rfl | hd
    · exact absurd htid hi
    · exact h.undropped hp d hd htid
  dropped hc := by
    obtain ⟨d, hd, hdrops⟩ := h.dropped hc
    exact ⟨d, by rw [hran.log]; exact List.mem_cons_of_mem _ hd, hdrops⟩
  floor := h.floor.trans hran.newest_le
  begun := h.begun
  fresh := h.fresh
  late b hr hb := by
    have hcounts : e.counts i = false := by
      rw [Event.counts, beq_false_of_ne hi, Bool.false_and]
    exact hran.late hcounts (h.late b hr hb)

/-- What may be in the cache: nothing older than what is settled. -/
def Allowed (w : World) (b : Option Nat) : Prop := newest w ≤ b.getD 0

variable [Platform] {E : Env} {t₀ : Table} {ls : Nat → Option Loc} {l l' : Loc} {o : Op} {n : Nat} {S : Nat → Prop}

/-- An operation is an event, and a commit is made by a request that has dropped nothing. -/
theorem ran_exec (h : Dates n S w i l)
    (ht : Tracks Allowed i w (World.exec E i o w).2 l l' o (World.exec E i o w).1) :
    Ran w (World.exec E i o w).2 ⟨i, o, (World.exec E i o w).1⟩ := by
  refine ⟨rfl, ht.commits.imp_right fun hc => ?_⟩
  obtain ⟨ws, t, hks, hopen, ho⟩ := hc
  refine ⟨⟨i, ws, t⟩, rfl, hks, ?_, fun d hd htid => ?_⟩
  · generalize (World.exec E i o w).1 = r at ho
    cases ho
    rfl
  · rcases List.mem_cons.mp hd with rfl | hd
    · generalize (World.exec E i o w).1 = r at ho
      cases ho
      rfl
    · exact h.undropped hopen d hd htid

/-- A request's own operation. -/
theorem Dates.step (h : Dates n S w i l) (hcan : Performs l o)
    (ht : Tracks Allowed i w (World.exec E i o w).2 l l' o (World.exec E i o w).1) : Dates n S (World.exec E i o w).2 i l' := by
  have hran := ran_exec h ht
  have hlog : (World.exec E i o w).2.log = ⟨i, o, (World.exec E i o w).1⟩ :: w.log := rfl
  refine ⟨fun hp d hd htid => ?_, fun hc => ?_, ?_, fun hi => ?_, fun hr => ?_, fun b hr hb => ?_⟩
  · rcases List.mem_cons.mp hd with rfl | hd
    · -- the statistics are dropped only after the commit
      by_contra hdrops
      obtain ⟨ks, rfl, hk⟩ := Event.drops_iff.mp (by simpa using hdrops)
      exact (hcan hk).2 (ht.opened hp)
    · exact h.undropped (ht.opened hp) d hd htid
  · rcases ht.cleared hc with hc | ⟨ks, rfl, hk⟩
    · obtain ⟨d, hd, hdrops⟩ := h.dropped hc
      exact ⟨d, List.mem_cons_of_mem _ hd, hdrops⟩
    · exact ⟨_, List.mem_cons_self, rfl, Event.drops_iff.mpr ⟨ks, rfl, hk⟩⟩
  · rw [ht.floor]
    exact h.floor.trans hran.newest_le
  · rw [ht.floor]
    exact h.begun hi
  · rw [ht.floor]
    have hread : l'.reads ≠ [] → l.floor ≤ l'.base.getD 0 := by
      intro hr
      rcases ht.reads hr with ⟨hr, hb, -⟩ | ⟨-, hb⟩
      · rw [hb]
        exact h.fresh (.inr hr)
      · rw [hb]
        exact h.floor.trans (newestSettled_le _ _)
    rcases hr with hs | hr
    · rcases ht.seen hs with ⟨hs', hb⟩ | ha
      · rw [hb]
        exact h.fresh (.inl (hs' ▸ hs))
      · exact h.floor.trans ha
    · exact hread hr
  · rcases ht.reads hr with ⟨hr, hb', hne⟩ | ⟨rfl, hb'⟩
    · have hcounts : (⟨i, o, (World.exec E i o w).1⟩ : Event).counts i = false := by
        by_contra hc
        exact hne (Event.counts_iff.mp (by simpa using hc)).2
      exact hran.late hcounts (h.late b hr (hb' ▸ hb))
    · -- nothing is committed after the newest version
      have hlen : (World.exec E i (.select .countAvg) w).2.db.commits = w.db.commits := by
        rw [(World.select_cases _).1]
      rw [hb'] at hb
      cases hb
      rw [Late, hlen, Nat.sub_self]
      intro k hk
      cases hk

/-- A healthy Redis drops what it is asked to drop. -/
theorem exec_drops (hE : E.Healthy) (hd : (⟨i, o, (World.exec E i o w).1⟩ : Event).drops = true) :
    (World.exec E i o w).2.redis STATS_KEY = none := by
  obtain ⟨ks, rfl, hk⟩ := Event.drops_iff.mp hd
  show (Redis.faulty (E.fault w.ticks) (Redis.delete ks) (w.cache E)).2 STATS_KEY = none
  rw [hE]
  show (w.cache E).drop ks STATS_KEY = none
  rw [Redis.drop, if_pos hk]

/-! ## Runs -/

structure FreshInv (t₀ : Table) (n : Nat) (S : Nat → Prop) (w : World) (ls : Nat → Option Loc) : Prop where
  base : Inv Allowed t₀ w ls
  settled : n ≤ newest w
  silent : ∀ i, ls i = none → ∀ e ∈ w.log, e.tid ≠ i
  dates : ∀ i l, ls i = some l → Dates n S w i l

/-- Readers put statistics in the cache only undisturbed. -/
abbrev careful (E : Env) : Machine sig := (machine E).restrict undisturbed

def freshOutline (E : Env) (t₀ : Table) (n : Nat) (S : Nat → Prop) : Outline (careful E) (App × Call) Reply Loc where
  toProtocol := protocol
  post := Post
  inv := FreshInv t₀ n S
  belongs c l := l.call = c

theorem freshOutline_sound (hE : E.Healthy) (t₀ : Table) (n : Nat) (S : Nat → Prop) : (freshOutline E t₀ n S).Sound serve where
  start := by
    intro w ls i c h hi
    refine ⟨.begun c (newest w), ⟨start_inv h.base hi c _, h.settled, fun j hj => ?_, fun j u hu => ?_⟩, rfl, serve_follows c _⟩
    · obtain ⟨e, hj⟩ := update_none hj
      exact h.silent j hj
    · rcases update_some hu with ⟨rfl, rfl⟩ | ⟨e, hu⟩
      · refine ⟨fun _ d hd htid => absurd htid (h.silent j hi d hd), fun hc => (by cases hc), le_refl _, fun _ => h.settled, fun hr => ?_,
          fun b hr => absurd rfl hr⟩
        rcases hr with hs | hr
        · exact absurd rfl hs
        · exact absurd rfl hr
      · exact h.dates j u hu
  exec := by
    intro w ls i l o h hl hcan hen
    have hboth : World.enabled i o w = true ∧ undisturbed i o w = true := Bool.and_eq_true_iff.mp hen
    have hdates := h.dates i l hl
    obtain ⟨_, -, -, -, htracks⟩ := exec_fits (E := E) h.base hl o hcan hboth.1
    have hran := ran_exec hdates htracks
    have hkeeps : (⟨i, o, (World.exec E i o w).1⟩ : Event).drops = false → ∀ b, Allowed w b → Allowed (World.exec E i o w).2 b := by
      intro hd b hb
      rw [Allowed, hran.newest_eq hd]
      exact hb
    have hA : (∀ b, Allowed w b → Allowed (World.exec E i o w).2 b) ∨ (World.exec E i o w).2.redis STATS_KEY = none := by
      cases hd : (⟨i, o, (World.exec E i o w).1⟩ : Event).drops with
      | false => exact .inl (hkeeps hd)
      | true => exact .inr (exec_drops hE hd)
    have hset : ∀ v ex, o = .set STATS_KEY v ex → Allowed (World.exec E i o w).2 l.base := by
      intro v ex ho
      subst ho
      obtain ⟨f, at_, hreads, -⟩ := hcan rfl
      have hne : l.reads ≠ [] := by
        rw [hreads]
        exact List.cons_ne_nil _ _
      obtain ⟨b, hb, -⟩ := (h.base.fits i l hl).reads hne
      refine hkeeps rfl _ ?_
      rw [hb]
      exact newest_le_of_undisturbed hboth.2 (hdates.late b hne hb)
    obtain ⟨l', hm, hinv, htracks⟩ := exec_inv (E := E) h.base hl o hcan hboth.1 hA hset
    refine ⟨l', hm, ⟨hinv, h.settled.trans hran.newest_le, fun j hj => ?_, fun j u hu => ?_⟩, fun c hc => htracks.call.trans hc⟩
    · obtain ⟨e, hj⟩ := update_none hj
      intro d hd
      rcases List.mem_cons.mp hd with rfl | hd
      · exact fun hd => e hd.symm
      · exact h.silent j hj d hd
    · rcases update_some hu with ⟨rfl, rfl⟩ | ⟨e, hu⟩
      · exact hdates.step hcan htracks
      · exact (h.dates j u hu).frame hran fun he => e he.symm

/-- From where a run has come: what is settled now is settled for whoever begins later. -/
theorem fresh_restart {P : Pool (careful E) (App × Call) Reply} (h : (freshOutline E t₀ n S).At P ls) :
    (freshOutline E t₀ (newest P.shared) fun i => P.threads i ≠ none).At P ls := by
  refine ⟨⟨h.inv.base, le_refl _, h.inv.silent, fun i l hl => ?_⟩, h.idle, h.busy⟩
  refine { h.inv.dates i l hl with begun := fun hi => ?_ }
  rw [h.idle i (by simpa using hi)] at hl
  cases hl

/-- Commits stay where they are. -/
theorem steps_commits {P P' : Pool (careful E) (App × Call) Reply} (hs : Pool.Steps serve P P') :
    ∃ more, P'.shared.db.commits = more ++ P.shared.db.commits := by
  refine Pool.steps_shared (R := fun w w' : World => ∃ more, w'.db.commits = more ++ w.db.commits) ?_ ?_ ?_ hs
  · exact fun w => ⟨[], rfl⟩
  · intro w w' w'' h h'
    obtain ⟨more, h⟩ := h
    obtain ⟨more', h'⟩ := h'
    exact ⟨more' ++ more, by rw [h', h, List.append_assoc]⟩
  · intro i o w
    rcases World.exec_commits (E := E) (i := i) (w := w) o with h | ⟨k, h⟩
    · exact ⟨[], h⟩
    · exact ⟨[k], h⟩

def Call.writes : Call → Bool
  | .create _ | .changeStatus _ _ => true
  | _ => false

/-- A writer that has returned has committed and dropped the statistics. -/
theorem writer_settled {P : Pool (careful E) (App × Call) Reply} (h : (freshOutline E t₀ n S).At P ls) {j : Nat} {c : App × Call}
    {reply : Reply} (hc : Call.writes c.2 = true) (ht : P.threads j = some ⟨c, .ret reply⟩) :
    ∃ newer k older, P.shared.db.commits = newer ++ k :: older ∧ k.tid = j ∧ Written c.2 k.writes ∧
      older.length < newest P.shared := by
  obtain ⟨l, hl, hbelongs, hpost⟩ := h.busy j _ ht
  have hcall : l.call = c := hbelongs
  have hdone : ∃ ws t, l.phase = .done ws t ∧ l.cleared = true := by
    obtain ⟨app, call⟩ := c
    cases call with
    | create data =>
      obtain ⟨row, t, -, hphase, -, hcleared, -⟩ := hpost
      exact ⟨_, t, hphase, hcleared⟩
    | changeStatus id target =>
      obtain ⟨row, t, hphase, -, hcleared, -⟩ := hpost
      exact ⟨_, t, hphase, hcleared⟩
    | stats => cases hc
    | get id => cases hc
    | list f page pageSize => cases hc
    | invalid errors => cases hc
  obtain ⟨ws, t, hphase, hcleared⟩ := hdone
  have hfits := h.inv.base.fits j l hl
  have hcommits := hfits.session.commits
  rw [hphase] at hcommits
  obtain ⟨newer, older, hks⟩ := commit_position hcommits
  refine ⟨newer, ⟨j, ws, t⟩, older, hks, rfl, ?_, ?_⟩
  · rw [← hcall]
    exact hfits.writes ws (by rw [hphase]; rfl)
  · show older.length < newestSettled P.shared.log P.shared.db.commits
    rw [hks]
    exact lt_newestSettled (settled_iff.mpr ((h.inv.dates j l hl).dropped hcleared))

/-- In every run whose readers put statistics in the cache only undisturbed: a reader that
    begins after a writer has returned is given figures of versions that include the write. -/
theorem stats_fresh (hE : E.Healthy) {w₀ : World} (h₀ : w₀.db = opened t₀) (hlog : w₀.log = [])
    {P₁ P₂ : Pool (careful E) (App × Call) Reply} (h₁ : Pool.Steps serve (.fresh w₀) P₁) (h₂ : Pool.Steps serve P₁ P₂)
    (j : Nat) (c : App × Call) (reply : Reply) (hc : Call.writes c.2 = true) (hj : P₁.threads j = some ⟨c, .ret reply⟩)
    (i : Nat) (d : App × Call) (s : StatsOut) (hit : Bool) (hi : P₁.threads i = none)
    (ht : P₂.threads i = some ⟨d, .ret (.stats s hit)⟩) :
    ∃ newer k older, P₂.shared.db.commits = newer ++ k :: older ∧ k.tid = j ∧ Written c.2 k.writes ∧
      ∃ (v : Selects P₂.shared.db.commits.length) (at_ : Int), older.length < v.counted ∧
        s = (v.figures (version t₀ P₂.shared.db.commits)).stats at_ := by
  have hinitial : FreshInv t₀ 0 (fun _ => False) w₀ fun _ => none := by
    refine ⟨inv_initial h₀ fun _ => ?_, Nat.zero_le _, fun _ _ e he => ?_, fun _ _ h => by cases h⟩
    · rw [Allowed, newest, h₀]
      exact le_refl _
    · rw [hlog] at he
      cases he
  obtain ⟨ls, hls⟩ := Outline.keeps (freshOutline_sound hE t₀ 0 _) h₁ (Outline.fresh_holds hinitial)
  obtain ⟨newer, k, older, hks, hk, hw, hsettled⟩ := writer_settled hls hc hj
  obtain ⟨more, hmore⟩ := steps_commits h₂
  obtain ⟨ls', hls'⟩ := Outline.keeps (freshOutline_sound hE t₀ _ _) h₂ ⟨ls, fresh_restart hls⟩
  refine ⟨more ++ newer, k, older, by rw [hmore, hks, List.append_assoc], hk, hw, ?_⟩
  obtain ⟨l, hl, hpost⟩ := hls'.returned ht
  have hfits := hls'.inv.base.fits i l hl
  have hdates := hls'.inv.dates i l hl
  have hfloor : older.length < l.floor := hsettled.trans_le (hdates.begun fun h => h hi)
  obtain ⟨b, f, at_, hb, rfl, hknown⟩ : ∃ (b : Nat) (f : Figures) (at_ : Int), l.floor ≤ b ∧ s = f.stats at_ ∧
      Known t₀ P₂.shared.db b f.reads := by
    rcases post_stats hpost with ⟨-, raw, hseen, hstats⟩ | ⟨-, f, at_, hreads, rfl⟩
    · have hle := hdates.fresh (.inl (by rw [hseen]; simp))
      cases hb : l.base with
      | none =>
        rw [hb] at hle
        exact absurd (hfloor.trans_le hle) (Nat.not_lt_zero _)
      | some b =>
        rw [hb] at hle
        obtain ⟨f, at_, hf, hknown⟩ := (hfits.seen raw b hseen hb).stats hstats
        exact ⟨b, f, at_, hle, hf, hknown⟩
    · have hne : l.reads ≠ [] := by
        rw [hreads]
        exact List.cons_ne_nil _ _
      obtain ⟨b, hb, hknown⟩ := hfits.reads hne
      have hle := hdates.fresh (.inr hne)
      rw [hb] at hle
      exact ⟨b, f, at_, hle, rfl, hreads ▸ hknown⟩
  obtain ⟨v, hv, rfl⟩ := selects_of_known hknown
  exact ⟨v, at_, hfloor.trans_le (hb.trans hv), rfl⟩

/-! ## A reader and a writer -/

omit [Platform] in
section

/-- Nothing fails. -/
def quiet : Env := .calm fun _ _ _ => .error .triageTimeout

/-- How many complaints are open, and how many in progress, as a reply has it. -/
def openAndMoved : Reply → Option (Int × Int)
  | .stats s _ => do return (← s.byStatus.get .open_, ← s.byStatus.get .inProgress)
  | _ => none

/-- A status change runs to its end. -/
def changedOnce : Pool (@careful .ascii quiet) (App × Call) Reply :=
  Pool.schedule (@serve .ascii) (.start 0 (replica, .changeStatus 7 .inProgress) :: List.replicate 8 (.exec 0))
    (.fresh (.initial potholes))

/-- Then a reader does. -/
def reported : Pool (@careful .ascii quiet) (App × Call) Reply :=
  Pool.schedule (@serve .ascii) (.start 1 (replica, .stats) :: List.replicate 12 (.exec 1)) changedOnce

theorem stats_fresh_pothole : ∃ (s : StatsOut) (newer : List Commit) (k : Commit) (older : List Commit),
    openAndMoved (.stats s false) = some (0, 1) ∧ reported.shared.db.commits = newer ++ k :: older ∧ k.tid = 0 ∧
      ∃ (v : Selects reported.shared.db.commits.length) (at_ : Int), older.length < v.counted ∧
        s = (v.figures (version potholes reported.shared.db.commits)).stats at_ := by
  have hwriter : (changedOnce.result 0).isSome = true := by decide +kernel
  have hcall : (changedOnce.threads 0).map (fun t => Call.writes t.call.2) = some true := by decide +kernel
  have hnone : (changedOnce.threads 1).isNone = true := by decide +kernel
  have hmoved : (reported.result 1).bind openAndMoved = some (0, 1) := by decide +kernel
  obtain ⟨reply, hreply⟩ := Option.isSome_iff_exists.mp hwriter
  obtain ⟨c, hj⟩ := Pool.result_some hreply
  rw [hj] at hcall
  obtain ⟨r, hr, hs⟩ := Option.bind_eq_some_iff.mp hmoved
  obtain ⟨d, ht⟩ := Pool.result_some hr
  cases r with
  | complaint _ => cases hs
  | page _ _ => cases hs
  | stats s hit =>
    obtain ⟨newer, k, older, hks, hk, -, hv⟩ := @stats_fresh .ascii quiet potholes (fun _ => rfl) (.initial potholes) rfl rfl
      changedOnce reported (Pool.schedule_steps _ _ _) (Pool.schedule_steps _ _ _) 0 c reply (Option.some.inj hcall) hj 1 d s hit
      (Option.isNone_iff_eq_none.mp hnone) ht
    exact ⟨s, newer, k, older, hs, hks, hk, hv⟩

/-- A reader has its figures, and a status change runs to its end. -/
def overtaken : Pool (@machine .ascii quiet) (App × Call) Reply :=
  Pool.schedule (@serve .ascii)
    (.start 0 (replica, .stats) :: .start 1 (replica, .changeStatus 7 .inProgress) ::
      (List.replicate 7 (.exec 0) ++ List.replicate 8 (.exec 1)))
    (.fresh (.initial potholes))

/-- The first reader goes on; then another one begins. -/
def misled : Pool (@machine .ascii quiet) (App × Call) Reply :=
  Pool.schedule (@serve .ascii)
    (List.replicate 12 (.exec 0) ++ .start 2 (replica, .stats) :: List.replicate 12 (.exec 2)) overtaken

/-- The change has returned and no complaint is open; a reader that begins afterwards is told
    that one is. -/
theorem stats_stale : quiet.Healthy ∧ @RequestRun .ascii _ (.initial potholes) overtaken ∧
    Pool.Steps (@serve .ascii) overtaken misled ∧ (overtaken.result 1).isSome = true ∧
    (overtaken.threads 2).isNone = true ∧ overtaken.shared.db.table.rows.map (·.status) = [.inProgress] ∧
    (misled.result 2).bind openAndMoved = some (1, 0) :=
  ⟨fun _ => rfl, Pool.schedule_steps _ _ _, Pool.schedule_steps _ _ _, by decide +kernel, by decide +kernel,
    by decide +kernel, by decide +kernel⟩

end

end Request

end CivicPulse
