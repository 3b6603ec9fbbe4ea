/-
  CivicPulse.Runs.SeederRuns — the invariant of a database with seeders at work, kept by each
  operation.

  Whoever is between its lock and its commit holds the advisory lock, so seeders commit one
  at a time. Until the first has committed none of the absent seeds is in the table, since
  nobody else inserts a seed's id; afterwards all of them are, since no row is taken away.
  - `Inv`, `Fits`: the invariant, and what it says of one client's session.
  - `request_step`, `seeder_step`: each operation of a client keeps it and moves the client as
    its protocol says.
-/

import CivicPulse.Runs.Seeders
import CivicPulse.Runs.StatsCache
import CivicPulse.Store.Frame

namespace CivicPulse.Seeding

open Text Lang
open Function (update)

variable [Platform] (E : Env) (uuid5 : Uuid → Str → Uuid)

/-! ## The invariant -/

/-- The seeders that have committed, newest first. -/
def committers (seeder : Nat → Bool) (log : List Event) : List Nat :=
  (log.filter fun e => e.commits && seeder e.tid).map (·.tid)

/-- What the other clients have committed. -/
def theirs (seeder : Nat → Bool) (ks : List Commit) : List Commit := ks.filter fun k => !seeder k.tid

/-- What transactions leave of a table, the newest first. -/
def replay (t₀ : Table) (ks : List Commit) : Table := ks.foldr (fun k t => t.after k.writes) t₀

/-- The seeds that are not in a table. -/
def absent (t₀ : Table) : List Uuid := (Seed.ids uuid5).filter fun id => !t₀.ids.contains id

/-- Which threads seed. -/
def seeders (ls : Nat → Option Loc) (i : Nat) : Bool := (ls i).any Loc.seeds

/-- A client's session, where `cs` have committed. -/
def Fits (t₀ : Table) (w : World) (cs : List Nat) (i : Nat) : Loc → Prop
  | .request fresh found => (∀ c, .insert c ∈ w.db.pending i → c.id ∉ Seed.ids uuid5) ∧
      (∀ id, fresh = some id → id ∉ Seed.ids uuid5) ∧ ∀ id, found = some id → id ∈ Seed.ids uuid5 → id ∈ w.db.table.ids
  | .waiting | .locked | .closed none => w.db.pending i = [] ∧ i ∉ cs
  | .seeding now todo missed inserted => w.db.pending i = inserted.map .insert ∧ i ∉ cs ∧
      ∃ seen, Seed.buildSeedComplaints uuid5 now = .ok (seen ++ todo) ∧
        inserted = (if cs = [] then seen.filter fun c => (absent uuid5 t₀).contains c.id else []) ∧
        (missed = true → ∃ c rest, todo = c :: rest ∧ c.id ∉ w.db.table.ids)
  | .committed n | .closed (some n) => w.db.pending i = [] ∧ i ∈ cs ∧
      n = if cs.getLast? = some i then (absent uuid5 t₀).length else 0

structure Inv (t₀ : Table) (w : World) (ls : Nat → Option Loc) : Prop where
  grows : t₀.Grows w.db.table
  others : ∀ id, id ∉ absent uuid5 t₀ →
    w.db.table.find id = (replay t₀ (theirs (seeders ls) w.db.commits)).find id
  before : committers (seeders ls) w.log = [] → ∀ id ∈ absent uuid5 t₀, id ∉ w.db.table.ids
  after : committers (seeders ls) w.log ≠ [] → ∃ now rows, Seed.buildSeedComplaints uuid5 now = .ok rows ∧
    ∀ c ∈ rows, c.id ∈ absent uuid5 t₀ → ∃ c' ∈ w.db.table.rows, c.Later c'
  idle : ∀ i, ls i = none → w.db.pending i = []
  past : (∀ k ∈ w.db.commits, ls k.tid ≠ none) ∧ ∀ e ∈ w.log, ls e.tid ≠ none
  fits : ∀ i l, ls i = some l → Fits uuid5 t₀ w (committers (seeders ls) w.log) i l
  lock : ∀ i, w.db.advisory lockKey = some i ↔ ∃ l, ls i = some l ∧ l.holds = true
  rowLocks : ∀ id ∈ absent uuid5 t₀, ∀ i, w.db.locks id = some i →
    id ∈ w.db.table.ids ∨ ∃ l, ls i = some l ∧ l.holds = true

section

variable {E uuid5} {t₀ : Table} {w : World} {ls : Nat → Option Loc} {i : Nat} {l l' : Loc} {cs : List Nat}

omit [Platform] in
theorem mem_absent {id : Uuid} : id ∈ absent uuid5 t₀ ↔ id ∈ Seed.ids uuid5 ∧ id ∉ t₀.ids := by
  simp [absent]

/-- The seeds' rows have the seeds' ids, and satisfy the table's checks. -/
theorem rows_of_build {now : Int} {rows : List Complaint} (h : Seed.buildSeedComplaints uuid5 now = .ok rows) :
    rows.map (·.id) = Seed.ids uuid5 ∧ ∀ c ∈ rows, c.Constraints ∧ int4 c.triageLatencyMs = true := by
  obtain ⟨rows', hrows, hids, hfit⟩ := Seed.build_ok uuid5 now
  obtain rfl : rows' = rows := Except.ok.inj (hrows.symm.trans h)
  exact ⟨hids, hfit⟩

omit [Platform] in
theorem seeders_update (hl : ls i = some l) (hrole : l'.seeds = l.seeds) : seeders (update ls i (some l')) = seeders ls := by
  funext j
  by_cases e : j = i
  · subst e
    simp [seeders, hl, hrole]
  · simp [seeders, Function.update_of_ne e]

omit [Platform] in
/-- A thread that starts has left no trace. -/
theorem seeders_start (hi : ls i = none) (l : Loc) {j : Nat} (hj : ls j ≠ none) :
    seeders (update ls i (some l)) j = seeders ls j := by
  have e : j ≠ i := fun e => hj (e ▸ hi)
  rw [seeders, Function.update_of_ne e, seeders]

theorem fits_congr {w' : World} {cs' : List Nat} (hp : w'.db.pending i = w.db.pending i) (hcs : cs' = cs)
    (hids : ∀ id ∈ Seed.ids uuid5, id ∈ w'.db.table.ids ↔ id ∈ w.db.table.ids) (h : Fits uuid5 t₀ w cs i l) :
    Fits uuid5 t₀ w' cs' i l := by
  subst hcs
  cases l with
  | request fresh found => exact ⟨hp ▸ h.1, h.2.1, fun id hid hseed => (hids id hseed).mpr (h.2.2 id hid hseed)⟩
  | waiting => exact ⟨hp.trans h.1, h.2⟩
  | locked => exact ⟨hp.trans h.1, h.2⟩
  | seeding now todo missed inserted =>
    obtain ⟨hpending, hnot, seen, hbuild, hinserted, hmissed⟩ := h
    refine ⟨hp.trans hpending, hnot, seen, hbuild, hinserted, fun hm => ?_⟩
    obtain ⟨c, rest, rfl, hc⟩ := hmissed hm
    refine ⟨c, rest, rfl, fun hc' => hc ((hids c.id ?_).mp hc')⟩
    rw [← (rows_of_build hbuild).1]
    exact List.mem_map_of_mem (by simp)
  | committed n => exact ⟨hp.trans h.1, h.2⟩
  | closed n =>
    cases n with
    | none => exact ⟨hp.trans h.1, h.2⟩
    | some n => exact ⟨hp.trans h.1, h.2⟩

theorem inv_start (h : Inv uuid5 t₀ w ls) (hi : ls i = none) (c : Client) : Inv uuid5 t₀ w (update ls i (some (begun c))) := by
  have hcs : committers (seeders (update ls i (some (begun c)))) w.log = committers (seeders ls) w.log := by
    rw [committers, committers]
    refine congrArg (List.map Event.tid) (List.filter_congr fun e he => ?_)
    rw [seeders_start hi _ (h.past.2 e he)]
  have htheirs : theirs (seeders (update ls i (some (begun c)))) w.db.commits = theirs (seeders ls) w.db.commits :=
    List.filter_congr fun k hk => by rw [seeders_start hi _ (h.past.1 k hk)]
  have hnot : i ∉ committers (seeders ls) w.log := by
    intro hm
    obtain ⟨e, he, rfl⟩ := List.mem_map.mp hm
    exact h.past.2 e (List.mem_filter.mp he).1 hi
  have hnever : (begun c).holds = false := by cases c <;> rfl
  have hstarted : ∀ j, ls j ≠ none → update ls i (some (begun c)) j ≠ none := by
    intro j hj
    rwa [Function.update_of_ne fun e : j = i => hj (by rw [e, hi])]
  have hholds : ∀ j, (∃ l, update ls i (some (begun c)) j = some l ∧ l.holds = true) ↔ ∃ l, ls j = some l ∧ l.holds = true := by
    intro j
    by_cases e : j = i
    · subst e
      simp [hi, hnever]
    · rw [Function.update_of_ne e]
  refine ⟨h.grows, ?_, ?_, ?_, fun j hj => ?_, ⟨fun k hk => hstarted _ (h.past.1 k hk), fun e he => hstarted _ (h.past.2 e he)⟩,
    fun j l hj => ?_, fun j => ?_, fun id hid j hj => ?_⟩
  · rw [htheirs]
    exact h.others
  · rw [hcs]
    exact h.before
  · rw [hcs]
    exact h.after
  · exact h.idle j (update_none hj).2
  · rw [hcs]
    rcases update_some hj with ⟨rfl, rfl⟩ | ⟨-, hj⟩
    · have hp := h.idle j hi
      cases c with
      | request app call => exact ⟨fun c hc => by rw [hp] at hc; (cases hc), nofun, nofun⟩
      | seeder => exact ⟨hp, hnot⟩
    · exact h.fits j l hj
  · rw [hholds]
    exact h.lock j
  · rw [hholds]
    exact h.rowLocks id hid j hj

/-! ## One operation -/

/-- The invariant after an operation of thread `i`, from what it does to the rows and how
    the clients fit. -/
theorem inv_next (h : Inv uuid5 t₀ w ls) (hl : ls i = some l) (hrole : l'.seeds = l.seeds) {o : Op}
    (hen : World.enabled i o w = true) {w' : World} (hw : (World.exec E i o w).2 = w')
    (hothers : ∀ id, id ∉ absent uuid5 t₀ → w'.db.table.find id = (replay t₀ (theirs (seeders ls) w'.db.commits)).find id)
    (hbefore : committers (seeders ls) w'.log = [] → ∀ id ∈ absent uuid5 t₀, id ∉ w'.db.table.ids)
    (hafter : committers (seeders ls) w'.log ≠ [] → ∃ now rows, Seed.buildSeedComplaints uuid5 now = .ok rows ∧
      ∀ c ∈ rows, c.id ∈ absent uuid5 t₀ → ∃ c' ∈ w'.db.table.rows, c.Later c')
    (hfits : ∀ j l₁, j ≠ i → ls j = some l₁ → Fits uuid5 t₀ w' (committers (seeders ls) w'.log) j l₁)
    (hfit : Fits uuid5 t₀ w' (committers (seeders ls) w'.log) i l')
    (hlock : w'.db.advisory lockKey = some i ↔ l'.holds = true)
    (hrow : ∀ id ∈ absent uuid5 t₀, w'.db.locks id = some i → id ∈ w'.db.table.ids ∨ l'.holds = true) :
    Inv uuid5 t₀ w' (update ls i (some l')) := by
  subst hw
  have hgrows : w.db.table.Grows (World.exec E i o w).2.db.table := World.exec_grows o
  have hne : ∀ {j}, j ≠ i → update ls i (some l') j = ls j := fun e => Function.update_of_ne e _ _
  have hstarted : ∀ j, ls j ≠ none → update ls i (some l') j ≠ none := by
    intro j hj
    by_cases e : j = i
    · subst e
      simp
    · rwa [hne e]
  have hi : ls i ≠ none := by simp [hl]
  refine ⟨h.grows.trans hgrows, ?_, ?_, ?_, fun j hj => ?_, ⟨fun k hk => hstarted _ ?_, fun e he => hstarted _ ?_⟩,
    fun j l₁ hj => ?_, fun j => ?_, fun id hid j hj => ?_⟩
  · rw [seeders_update hl hrole]
    exact hothers
  · rw [seeders_update hl hrole]
    exact hbefore
  · rw [seeders_update hl hrole]
    exact hafter
  · have e : j ≠ i := by
      intro e
      rw [e, Function.update_self] at hj
      cases hj
    rw [World.exec_pending e]
    exact h.idle j ((hne e).symm.trans hj)
  · rcases World.exec_committed (E := E) (i := i) (w := w) o with ⟨-, hc⟩ | ⟨-, -, hc⟩
    · exact h.past.1 k (hc ▸ hk)
    · rw [hc] at hk
      rcases List.mem_cons.mp hk with rfl | hk
      · exact hi
      · exact h.past.1 k hk
  · rcases List.mem_cons.mp he with rfl | he
    · exact hi
    · exact h.past.2 e he
  · rw [seeders_update hl hrole]
    by_cases e : j = i
    · subst e
      rw [Function.update_self, Option.some.injEq] at hj
      exact hj ▸ hfit
    · exact hfits j l₁ e ((hne e).symm.trans hj)
  · by_cases e : j = i
    · subst e
      simpa using hlock
    · rw [hne e, ← h.lock]
      refine ⟨fun hj => ?_, World.exec_advisory_kept e hen⟩
      exact (World.exec_advisory hj).resolve_right fun hc => e hc.1
  · by_cases e : j = i
    · subst e
      simpa using hrow id hid hj
    · rw [hne e]
      rcases World.exec_locks hj with hold | hnew
      · exact (h.rowLocks id hid j hold).imp_left fun hmem => hgrows.ids hmem
      · exact absurd hnew.1 e

/-- An operation that leaves the committed rows as they are. -/
theorem inv_quiet (h : Inv uuid5 t₀ w ls) (hl : ls i = some l) (hrole : l'.seeds = l.seeds) {o : Op}
    (hen : World.enabled i o w = true) {w' : World} (hw : (World.exec E i o w).2 = w')
    (htable : w'.db.table = w.db.table) (hcommits : w'.db.commits = w.db.commits)
    (hcs : committers (seeders ls) w'.log = committers (seeders ls) w.log)
    (hfit : Fits uuid5 t₀ w' (committers (seeders ls) w.log) i l')
    (hlock : w'.db.advisory lockKey = some i ↔ l'.holds = true)
    (hrow : ∀ id ∈ absent uuid5 t₀, w'.db.locks id = some i → id ∈ w.db.table.ids ∨ l'.holds = true) :
    Inv uuid5 t₀ w' (update ls i (some l')) := by
  refine inv_next h hl hrole hen hw ?_ ?_ ?_ (fun j l₁ hj hl₁ => ?_) (hcs ▸ hfit) hlock ?_
  · rw [htable, hcommits]
    exact h.others
  · rw [htable, hcs]
    exact h.before
  · rw [htable, hcs]
    exact h.after
  · subst hw
    exact fits_congr (World.exec_pending hj o) hcs (fun id _ => by rw [htable]) (h.fits j l₁ hl₁)
  · rw [htable]
    exact hrow

/-- A seed in a request's view is in the table. -/
theorem seed_in_table {fresh found : Option Uuid} (h : Fits uuid5 t₀ w cs i (.request fresh found)) {id : Uuid}
    (hseed : id ∈ Seed.ids uuid5) (hid : id ∈ (w.db.view i).ids) : id ∈ w.db.table.ids := by
  rcases (Table.mem_ids_after _).mp hid with hold | ⟨c, hc, rfl⟩
  · exact hold
  · exact absurd hseed (h.1 c hc)

theorem request_moves (hfresh : ∀ n, E.uuid n ∉ Seed.ids uuid5) {fresh found : Option Uuid}
    (h : Fits uuid5 t₀ w cs i (.request fresh found)) (o : Op) :
    ∃ fresh' found', Moves E uuid5 (.request fresh found) o (World.exec E i o w).1 (.request fresh' found') ∧
      (∀ id, fresh' = some id → id ∉ Seed.ids uuid5) ∧
      ∀ id, found' = some id → id ∈ Seed.ids uuid5 → id ∈ w.db.table.ids := by
  cases o with
  | uuid4 =>
    refine ⟨_, found, rfl, fun id hid => ?_, h.2.2⟩
    cases hid
    exact hfresh w.ticks
  | selectForUpdate id =>
    rcases World.selectForUpdate_cases (E := E) (i := i) (w := w) id with ⟨-, hans | ⟨e, hans⟩⟩ | ⟨row, hrow, hans, -⟩
    · exact ⟨fresh, found, by rw [hans]; rfl, h.2⟩
    · exact ⟨fresh, found, by rw [hans]; rfl, h.2⟩
    · refine ⟨fresh, some id, by rw [hans]; exact ⟨(Table.find_some hrow).2, rfl⟩, h.2.1, fun id' hid hseed => ?_⟩
      cases hid
      exact seed_in_table h hseed (Table.find_isSome.mp (by rw [hrow]; rfl))
  | _ => exact ⟨fresh, found, rfl, h.2⟩

theorem request_step (hfresh : ∀ n, E.uuid n ∉ Seed.ids uuid5) (h : Inv uuid5 t₀ w ls) {fresh found : Option Uuid}
    (hl : ls i = some (.request fresh found)) {o : Op} (hcan : Performs (.request fresh found) o)
    (hen : World.enabled i o w = true) :
    ∃ l', Moves E uuid5 (.request fresh found) o (World.exec E i o w).1 l' ∧ l'.seeds = false ∧
      Inv uuid5 t₀ (World.exec E i o w).2 (update ls i (some l')) := by
  have hi := h.fits i _ hl
  have hseeder : seeders ls i = false := by simp [seeders, hl, Loc.seeds]
  have hcs : committers (seeders ls) (World.exec E i o w).2.log = committers (seeders ls) w.log := by
    refine congrArg (List.map Event.tid) (List.filter_cons_of_neg ?_)
    simp [hseeder]
  obtain ⟨fresh', found', hmoves, hfresh', hfound'⟩ := request_moves hfresh hi o
  -- it inserts no seed, and locks none that is not in the table
  have hpending : ∀ c, .insert c ∈ (World.exec E i o w).2.db.pending i → c.id ∉ Seed.ids uuid5 := by
    intro c hc
    rcases World.mem_pending hc with hc | ⟨d, rfl, hid⟩ | rfl
    · exact hi.1 c hc
    · rw [hid]
      exact hi.2.1 _ hcan
    · exact hcan.elim
  have hlock : (World.exec E i o w).2.db.advisory lockKey = some i ↔ (Loc.request fresh' found').holds = true := by
    refine ⟨fun hadv => ?_, nofun⟩
    rcases World.exec_advisory hadv with hold | ⟨-, rfl⟩
    · obtain ⟨l, hl', hholds⟩ := (h.lock i).mp hold
      rw [hl] at hl'
      cases hl'
      cases hholds
    · exact hcan.elim
  have hrow : ∀ id ∈ absent uuid5 t₀, (World.exec E i o w).2.db.locks id = some i → id ∈ w.db.table.ids := by
    intro id hid hlocks
    have hseed := (mem_absent.mp hid).1
    rcases World.exec_locks hlocks with hold | ⟨-, hnew⟩
    · rcases h.rowLocks id hid i hold with hmem | ⟨l, hl', hholds⟩
      · exact hmem
      · rw [hl] at hl'
        cases hl'
        cases hholds
    · cases o with
      | selectForUpdate id' => exact seed_in_table hi hseed hnew.2
      | insert d => exact absurd hseed (hnew ▸ hi.2.1 _ hcan)
      | updateStatus id' s => exact hi.2.2 id (hnew ▸ hcan) hseed
      | insertRow c => exact hcan.elim
      | _ => cases hnew
  have hrole : (Loc.request fresh' found').seeds = (Loc.request fresh found).seeds := rfl
  refine ⟨_, hmoves, rfl, ?_⟩
  rcases World.exec_committed (E := E) (i := i) (w := w) o with ⟨htable, hcommits⟩ | ⟨rfl, htable, hcommits⟩
  · refine inv_quiet h hl hrole hen rfl htable hcommits hcs ⟨hpending, hfresh', ?_⟩ hlock fun id hid hl => .inl (hrow id hid hl)
    rw [htable]
    exact hfound'
  · -- its writes are committed: of the seeds, they insert none
    have hids : ∀ id ∈ Seed.ids uuid5, id ∈ (World.exec E i .commit w).2.db.table.ids ↔ id ∈ w.db.table.ids := by
      intro id hid
      rw [htable, Table.mem_ids_after]
      refine ⟨fun hmem => hmem.resolve_right fun hc => ?_, .inl⟩
      obtain ⟨c, hc, rfl⟩ := hc
      exact hi.1 c hc hid
    refine inv_next h hl hrole hen rfl (fun id hid => ?_) (fun hnone id hid => ?_) (fun hsome => ?_) (fun j l₁ hj hl₁ => ?_)
      ⟨hpending, hfresh', fun id hf hseed => (hids id hseed).mpr (hfound' id hf hseed)⟩ hlock
      (fun id hid hl => .inl ((hids id (mem_absent.mp hid).1).mpr (hrow id hid hl)))
    · rw [htable, hcommits, theirs, List.filter_cons_of_pos (by simp [hseeder])]
      exact Table.find_after_congr (h.others id hid) _
    · rw [hids id (mem_absent.mp hid).1]
      exact h.before (hcs ▸ hnone) id hid
    · obtain ⟨now, rows, hbuild, hrows⟩ := h.after (hcs ▸ hsome)
      refine ⟨now, rows, hbuild, fun c hc hid => ?_⟩
      obtain ⟨c', hc', hlater⟩ := hrows c hc hid
      obtain ⟨c'', hc'', hlater'⟩ := World.exec_grows (E := E) (i := i) .commit c' hc'
      exact ⟨c'', hc'', hlater.trans hlater'⟩
    · exact fits_congr (World.exec_pending hj _) hcs hids (h.fits j l₁ hl₁)

/-! ## A seeder's operations -/

omit [Platform] in
theorem committers_cons {seeder : Nat → Bool} {e : Event} (he : e.commits = false) (log : List Event) :
    committers seeder (e :: log) = committers seeder log :=
  congrArg (List.map Event.tid) (List.filter_cons_of_neg (by simp [he]))

omit [Platform] in
/-- A statement that cannot be refused failed with the connection. -/
theorem faulty_of_error {α : Type} {stmt : Db → Except Exc α × Db} {e : Exc} (h : (w.dbOp E stmt).1 = .error e)
    (hs : ∀ e, (stmt w.db).1 ≠ .error e) : Faulty E := by
  rcases World.dbOp_error h with ⟨cls, hf⟩ | h
  · exact ⟨_, cls, hf⟩
  · exact absurd h (hs e)

theorem inv_same (h : Inv uuid5 t₀ w ls) (hl : ls i = some l) (hrole : l'.seeds = l.seeds) (hholds : l'.holds = l.holds) {o : Op}
    (hen : World.enabled i o w = true) (hdb : (World.exec E i o w).2.db = w.db)
    (hev : (⟨i, o, (World.exec E i o w).1⟩ : Event).commits = false) (hfit : Fits uuid5 t₀ w (committers (seeders ls) w.log) i l') :
    Inv uuid5 t₀ (World.exec E i o w).2 (update ls i (some l')) := by
  refine inv_quiet h hl hrole hen rfl (by rw [hdb]) (by rw [hdb]) (committers_cons hev _)
    (fits_congr (by rw [hdb]) rfl (fun _ _ => by rw [hdb]) hfit) ?_ fun id hid hlocks => ?_
  · rw [hdb, h.lock, hl, hholds]
    simp
  · rw [hdb] at hlocks
    rw [hholds]
    exact (h.rowLocks id hid i hlocks).imp_right fun hx => by simpa [hl] using hx

/-- The session is closed: its writes and its locks are gone. -/
theorem inv_close (h : Inv uuid5 t₀ w ls) (hl : ls i = some l) (hrole : l.seeds = true) {n : Option Nat}
    (hfit : Fits uuid5 t₀ (World.exec E i .close w).2 (committers (seeders ls) w.log) i (.closed n)) :
    Inv uuid5 t₀ (World.exec E i .close w).2 (update ls i (some (.closed n))) := by
  have hrole' : (Loc.closed n).seeds = l.seeds := hrole.symm
  refine inv_quiet h hl hrole' rfl rfl rfl rfl (committers_cons rfl _) hfit ⟨fun hadv => ?_, nofun⟩ fun id _ hlocks => ?_
  · exact absurd rfl (World.finish_advisory.mp hadv).1
  · exact absurd rfl (World.finish_locks.mp hlocks).1

theorem seeder_close (h : Inv uuid5 t₀ w ls) (hl : ls i = some l) (hopen : l.isOpen = true) :
    Inv uuid5 t₀ (World.exec E i .close w).2 (update ls i (some (.closed none))) := by
  have hfit := h.fits i l hl
  have hpending : (World.exec E i .close w).2.db.pending i = [] := Function.update_self ..
  cases l with
  | waiting => exact inv_close h hl rfl ⟨hpending, hfit.2⟩
  | locked => exact inv_close h hl rfl ⟨hpending, hfit.2⟩
  | seeding now todo missed inserted => exact inv_close h hl rfl ⟨hpending, hfit.2.1⟩
  | request fresh found => cases hopen
  | committed n => cases hopen
  | closed n => cases hopen

theorem step_waiting (h : Inv uuid5 t₀ w ls) (hl : ls i = some .waiting) {o : Op} (hcan : Performs .waiting o)
    (hen : World.enabled i o w = true) : ∃ l', Moves E uuid5 .waiting o (World.exec E i o w).1 l' ∧ l'.seeds = true ∧
      Inv uuid5 t₀ (World.exec E i o w).2 (update ls i (some l')) := by
  have hfit := h.fits i _ hl
  rcases hcan with rfl | rfl
  · rcases World.advisoryLock_cases (E := E) (i := i) (w := w) lockKey with ⟨hdb, e, hans⟩ | ⟨hans, hdb⟩
    · have hf : Faulty E := faulty_of_error hans fun e => nofun
      exact ⟨.waiting, by rw [hans]; exact ⟨hf, rfl⟩, rfl, inv_same h hl rfl rfl hen hdb rfl hfit⟩
    · have hrole : Loc.locked.seeds = Loc.waiting.seeds := rfl
      refine ⟨.locked, by rw [hans]; rfl, rfl, inv_quiet h hl hrole hen rfl (by rw [hdb]) (by rw [hdb]) (committers_cons rfl _) ?_ ?_ ?_⟩
      · rw [Fits, hdb]
        exact hfit
      · rw [hdb]
        show update w.db.advisory lockKey (some i) lockKey = some i ↔ _
        rw [Function.update_self]
        exact ⟨fun _ => rfl, fun _ => rfl⟩
      · exact fun _ _ _ => .inr rfl
  · exact ⟨_, rfl, rfl, seeder_close h hl rfl⟩

theorem step_locked (h : Inv uuid5 t₀ w ls) (hl : ls i = some .locked) {o : Op} (hcan : Performs .locked o)
    (hen : World.enabled i o w = true) : ∃ l', Moves E uuid5 .locked o (World.exec E i o w).1 l' ∧ l'.seeds = true ∧
      Inv uuid5 t₀ (World.exec E i o w).2 (update ls i (some l')) := by
  have hfit := h.fits i _ hl
  rcases hcan with rfl | rfl
  · obtain ⟨rows, hrows, -⟩ := Seed.build_ok uuid5 (World.exec E i .utcnow w).1
    have hrole : (Loc.seeding (World.exec E i .utcnow w).1 rows false []).seeds = Loc.locked.seeds := rfl
    refine ⟨_, ⟨rows, hrows, rfl⟩, rfl, inv_same h hl hrole rfl hen rfl rfl ⟨hfit.1, hfit.2, [], hrows, ?_, nofun⟩⟩
    split <;> rfl
  · exact ⟨_, rfl, rfl, seeder_close h hl rfl⟩

/-- After a seeder's commit all seeds are there. -/
theorem seeds_present (h : Inv uuid5 t₀ w ls) (hcs : committers (seeders ls) w.log ≠ []) {id : Uuid} (hid : id ∈ Seed.ids uuid5) :
    id ∈ w.db.table.ids := by
  by_cases ht : id ∈ t₀.ids
  · exact h.grows.ids ht
  · obtain ⟨now, rows, hbuild, hrows⟩ := h.after hcs
    have hmem : id ∈ rows.map (·.id) := (rows_of_build hbuild).1 ▸ hid
    obtain ⟨c, hc, rfl⟩ := List.mem_map.mp hmem
    obtain ⟨c', hc', hlater⟩ := hrows c hc (mem_absent.mpr ⟨hid, ht⟩)
    have hid' : c'.id = c.id := by rw [hlater]
    exact List.mem_map.mpr ⟨c', hc', hid'⟩

/-- The next row is in the seeder's view when it is in the table. -/
theorem mem_view (hnodup : (Seed.ids uuid5).Nodup) {now : Int} {c : Complaint} {rest inserted : List Complaint} {missed : Bool}
    (h : Fits uuid5 t₀ w cs i (.seeding now (c :: rest) missed inserted)) : c.id ∈ (w.db.view i).ids ↔ c.id ∈ w.db.table.ids := by
  obtain ⟨hpending, -, seen, hbuild, hinserted, -⟩ := h
  rw [Db.view, Table.mem_ids_after, hpending]
  refine ⟨fun hmem => hmem.resolve_right fun hd => ?_, .inl⟩
  obtain ⟨d, hd, hid⟩ := hd
  obtain ⟨d, hd, hw⟩ := List.mem_map.mp hd
  cases hw
  have hseen : d ∈ seen := by
    rw [hinserted] at hd
    split at hd
    · exact (List.mem_filter.mp hd).1
    · cases hd
  rw [← (rows_of_build hbuild).1, List.map_append, List.map_cons] at hnodup
  exact (List.disjoint_of_nodup_append hnodup) (List.mem_map_of_mem hseen) (hid ▸ List.mem_cons_self)

theorem step_lookup (hnodup : (Seed.ids uuid5).Nodup) (h : Inv uuid5 t₀ w ls) {now : Int} {c : Complaint}
    {rest inserted : List Complaint} (hl : ls i = some (.seeding now (c :: rest) false inserted)) :
    ∃ l', Moves E uuid5 (.seeding now (c :: rest) false inserted) (.select (.byId c.id)) (World.exec E i (.select (.byId c.id)) w).1 l' ∧
      l'.seeds = true ∧ Inv uuid5 t₀ (World.exec E i (.select (.byId c.id)) w).2 (update ls i (some l')) := by
  have hfit := h.fits i _ hl
  have hview := mem_view hnodup hfit
  obtain ⟨hpending, hnot, seen, hbuild, hinserted, -⟩ := hfit
  have hseed : c.id ∈ Seed.ids uuid5 := by
    rw [← (rows_of_build hbuild).1]
    exact List.mem_map_of_mem (by simp)
  have hcons : seen ++ c :: rest = (seen ++ [c]) ++ rest := by rw [List.append_assoc]; rfl
  obtain ⟨hdb, ⟨e, hans⟩ | ⟨-, hans⟩⟩ := World.select_cases (E := E) (i := i) (w := w) (.byId c.id)
  · have hf : Faulty E := faulty_of_error hans fun e he => by cases he
    exact ⟨_, by rw [hans]; exact ⟨hf, rfl⟩, rfl, inv_same h hl rfl rfl rfl hdb rfl (h.fits i _ hl)⟩
  · have hans : (World.exec E i (.select (.byId c.id)) w).1 = .ok ((w.db.view i).find c.id) := hans
    rcases hfind : (w.db.view i).find c.id with _ | row
    · rw [hfind] at hans
      have hrole : (Loc.seeding now (c :: rest) true inserted).seeds = (Loc.seeding now (c :: rest) false inserted).seeds := rfl
      refine ⟨_, by rw [hans]; rfl, rfl, inv_same h hl hrole rfl rfl hdb rfl ⟨hpending, hnot, seen, hbuild, hinserted, fun _ => ?_⟩⟩
      exact ⟨c, rest, rfl, fun hmem => Table.find_none.mp hfind (hview.mpr hmem)⟩
    · -- the row is in the table: no insertion
      rw [hfind] at hans
      have hmem : c.id ∈ w.db.table.ids := hview.mp (Table.find_isSome.mp (by rw [hfind]; rfl))
      have hrole : (Loc.seeding now rest false inserted).seeds = (Loc.seeding now (c :: rest) false inserted).seeds := rfl
      refine ⟨_, by rw [hans]; rfl, rfl, inv_same h hl hrole rfl rfl hdb rfl ⟨hpending, hnot, seen ++ [c], hcons ▸ hbuild, ?_, nofun⟩⟩
      rw [hinserted]
      split
      · rename_i hcs
        rw [List.filter_append, List.filter_cons_of_neg, List.filter_nil, List.append_nil]
        rw [List.contains_eq_mem, decide_eq_true_eq]
        exact fun hc => h.before hcs c.id hc hmem
      · rfl

theorem step_insert (hnodup : (Seed.ids uuid5).Nodup) (h : Inv uuid5 t₀ w ls) {now : Int} {c : Complaint}
    {rest inserted : List Complaint} (hl : ls i = some (.seeding now (c :: rest) true inserted))
    (hen : World.enabled i (.insertRow c) w = true) :
    ∃ l', Moves E uuid5 (.seeding now (c :: rest) true inserted) (.insertRow c) (World.exec E i (.insertRow c) w).1 l' ∧
      l'.seeds = true ∧ Inv uuid5 t₀ (World.exec E i (.insertRow c) w).2 (update ls i (some l')) := by
  have hfit := h.fits i _ hl
  have hview := mem_view hnodup hfit
  obtain ⟨hpending, hnot, seen, hbuild, hinserted, hmissed⟩ := hfit
  obtain ⟨c', rest', hc', habsent⟩ := hmissed rfl
  cases hc'
  have hcons : seen ++ c :: rest = (seen ++ [c]) ++ rest := by rw [List.append_assoc]; rfl
  obtain ⟨hids, hrows⟩ := rows_of_build hbuild
  have hseed : c.id ∈ Seed.ids uuid5 := by
    rw [← hids]
    exact List.mem_map_of_mem (by simp)
  rcases World.insertRow_cases (E := E) (i := i) (w := w) c with ⟨hdb, e, hans⟩ | ⟨-, hans, hdb⟩
  · have hf : Faulty E := faulty_of_error hans fun e => by
      rw [World.insertRowStmt, if_pos (hrows c (by simp)), if_neg fun hmem => habsent (hview.mp hmem)]
      intro he
      cases he
    exact ⟨_, by rw [hans]; exact ⟨hf, rfl⟩, rfl, inv_same h hl rfl rfl hen hdb rfl (h.fits i _ hl)⟩
  · -- nobody has seeded: the row was not there at the start
    have hcs : committers (seeders ls) w.log = [] := by
      by_contra hne
      exact habsent (seeds_present h hne hseed)
    have hc : c.id ∈ absent uuid5 t₀ := mem_absent.mpr ⟨hseed, fun ht => habsent (h.grows.ids ht)⟩
    have hrole : (Loc.seeding now rest false (inserted ++ [c])).seeds = (Loc.seeding now (c :: rest) true inserted).seeds := rfl
    have hlock : w.db.advisory lockKey = some i := (h.lock i).mpr ⟨_, hl, rfl⟩
    refine ⟨_, by rw [hans]; rfl, rfl, inv_quiet h hl hrole hen rfl (by rw [hdb]; rfl) (by rw [hdb]; rfl) (committers_cons rfl _)
      ⟨?_, hnot, seen ++ [c], hcons ▸ hbuild, ?_, fun hm => Bool.noConfusion hm⟩ ?_ fun _ _ _ => .inr rfl⟩
    · rw [hdb, List.map_append, ← hpending]
      exact Function.update_self ..
    · rw [hinserted, if_pos hcs, if_pos hcs, List.filter_append, List.filter_cons_of_pos, List.filter_nil]
      rw [List.contains_eq_mem, decide_eq_true_eq]
      exact hc
    · rw [hdb]
      exact ⟨fun _ => rfl, fun _ => hlock⟩

/-- The clients beside a seeder that commits: none of them holds the lock. -/
theorem fits_beside {w' : World} {j : Nat} (hp : w'.db.pending j = w.db.pending j) (hgrows : w.db.table.Grows w'.db.table)
    (hj : j ≠ i) (hl : l.holds = false) (h : Fits uuid5 t₀ w cs j l) : Fits uuid5 t₀ w' (i :: cs) j l := by
  have hnot : j ∉ cs → j ∉ i :: cs := fun hn hm => (List.mem_cons.mp hm).elim hj hn
  have hlast : j ∈ cs → (i :: cs).getLast? = cs.getLast? := by
    intro hm
    cases cs with
    | nil => cases hm
    | cons k cs => exact List.getLast?_cons_cons
  cases l with
  | request fresh found => exact ⟨hp ▸ h.1, h.2.1, fun id hid hseed => hgrows.ids (h.2.2 id hid hseed)⟩
  | waiting => exact ⟨hp.trans h.1, hnot h.2⟩
  | locked => cases hl
  | seeding now todo missed inserted => cases hl
  | committed n =>
    refine ⟨hp.trans h.1, List.mem_cons_of_mem _ h.2.1, ?_⟩
    rw [hlast h.2.1]
    exact h.2.2
  | closed n =>
    cases n with
    | none => exact ⟨hp.trans h.1, hnot h.2⟩
    | some n =>
      refine ⟨hp.trans h.1, List.mem_cons_of_mem _ h.2.1, ?_⟩
      rw [hlast h.2.1]
      exact h.2.2

/-- Who looked at all rows has inserted the absent ones. -/
theorem inserted_absent {now : Int} {rows : List Complaint} (hbuild : Seed.buildSeedComplaints uuid5 now = .ok rows) :
    (rows.filter fun c => (absent uuid5 t₀).contains c.id).map (·.id) = absent uuid5 t₀ := by
  have hids : (rows.map (·.id)).filter (fun id => (absent uuid5 t₀).contains id) = absent uuid5 t₀ := by
    rw [(rows_of_build hbuild).1]
    refine (List.filter_congr fun id hid => ?_ : _ = (Seed.ids uuid5).filter fun id => !t₀.ids.contains id)
    simp [absent, hid]
  rw [List.filter_map] at hids
  exact hids

theorem step_commit (hnodup : (Seed.ids uuid5).Nodup) (h : Inv uuid5 t₀ w ls) {now : Int} {inserted : List Complaint}
    {missed : Bool} (hl : ls i = some (.seeding now [] missed inserted)) :
    ∃ l', Moves E uuid5 (.seeding now [] missed inserted) .commit (World.exec E i .commit w).1 l' ∧
      l'.seeds = true ∧ Inv uuid5 t₀ (World.exec E i .commit w).2 (update ls i (some l')) := by
  have hfit := h.fits i _ hl
  obtain ⟨hpending, hnot, rows, hbuild, hinserted, -⟩ := hfit
  rw [List.append_nil] at hbuild
  rcases World.commit_cases (E := E) (i := i) (w := w) with ⟨hdb, e, hans⟩ | ⟨hans, hdb⟩
  · have hf : Faulty E := faulty_of_error hans fun e he => by cases he
    exact ⟨_, by rw [hans]; exact ⟨hf, rfl⟩, rfl, inv_same h hl rfl rfl rfl hdb (by rw [hans]; rfl) (h.fits i _ hl)⟩
  have hseeder : seeders ls i = true := by simp [seeders, hl, Loc.seeds]
  have hcs : committers (seeders ls) (World.exec E i .commit w).2.log = i :: committers (seeders ls) w.log := by
    have hev : (⟨i, .commit, (World.exec E i .commit w).1⟩ : Event).commits = true := by rw [hans]; rfl
    show ((⟨i, .commit, (World.exec E i .commit w).1⟩ :: w.log : List Event).filter _).map _ = _
    rw [List.filter_cons_of_pos (by simp [hev, hseeder])]
    rfl
  have hgrows : w.db.table.Grows (World.exec E i .commit w).2.db.table := World.exec_grows .commit
  have hfinish : (World.exec E i .commit w).2.db.pending i = [] ∧ (World.exec E i .commit w).2.db.advisory lockKey ≠ some i ∧
      ∀ id, (World.exec E i .commit w).2.db.locks id ≠ some i := by
    obtain ⟨hp, hlk, ha⟩ := World.commit_finish (i := i) w.db
    rw [hdb, hp, hlk, ha]
    exact ⟨Function.update_self .., fun hadv => absurd rfl (World.finish_advisory.mp hadv).1,
      fun id hlocks => absurd rfl (World.finish_locks.mp hlocks).1⟩
  have htable : (World.exec E i .commit w).2.db.table = w.db.table.after (inserted.map .insert) := by
    rw [hdb, ← hpending, Db.commit]
    split
    · rename_i hempty
      rw [List.isEmpty_iff.mp hempty]
      rfl
    · rfl
  -- what it inserts is absent, and all of it when it is the first
  have habsent : ∀ c ∈ inserted, c.id ∈ absent uuid5 t₀ := by
    intro c hc
    rw [hinserted] at hc
    split at hc
    · simpa using (List.mem_filter.mp hc).2
    · cases hc
  have hnodup' : (inserted.map (·.id)).Nodup := by
    rw [hinserted]
    split
    · rw [inserted_absent hbuild]
      exact hnodup.filter _
    · exact List.nodup_nil
  have hrole : (Loc.committed inserted.length).seeds = (Loc.seeding now [] missed inserted).seeds := rfl
  refine ⟨.committed inserted.length, by rw [hans]; rfl, rfl, inv_next h hl hrole rfl rfl (fun id hid => ?_) (fun hnone => ?_)
    (fun _ => ?_) (fun j l₁ hj hl₁ => ?_) ?_ ⟨fun hadv => absurd hadv hfinish.2.1, fun hholds => by cases hholds⟩
    (fun id _ hlocks => absurd hlocks (hfinish.2.2 id))⟩
  · have htheirs : theirs (seeders ls) (World.exec E i .commit w).2.db.commits = theirs (seeders ls) w.db.commits := by
      rcases World.exec_committed (E := E) (i := i) (w := w) .commit with ⟨-, hc⟩ | ⟨-, -, hc⟩
      · rw [hc]
      · rw [hc]
        exact List.filter_cons_of_neg (by simp [hseeder])
    rw [htable, htheirs, ← h.others id hid]
    exact Table.find_after_inserts fun c hc e => hid (e ▸ habsent c hc)
  · rw [hcs] at hnone
    cases hnone
  · by_cases hfirst : committers (seeders ls) w.log = []
    · refine ⟨now, rows, hbuild, fun c hc hid => ⟨c, ?_, rfl⟩⟩
      rw [htable]
      refine Table.mem_after_inserts hnodup' (fun d hd => h.before hfirst d.id (habsent d hd)) ?_
      rw [hinserted, if_pos hfirst]
      exact List.mem_filter.mpr ⟨hc, by simpa using hid⟩
    · obtain ⟨now', rows', hbuild', hrows⟩ := h.after hfirst
      refine ⟨now', rows', hbuild', fun c hc hid => ?_⟩
      obtain ⟨c', hc', hlater⟩ := hrows c hc hid
      obtain ⟨c'', hc'', hlater'⟩ := hgrows c' hc'
      exact ⟨c'', hc'', hlater.trans hlater'⟩
  · rw [hcs]
    refine fits_beside (World.exec_pending hj _) hgrows hj ?_ (h.fits j l₁ hl₁)
    -- the lock is its own
    by_contra hholds
    have hi : w.db.advisory lockKey = some i := (h.lock i).mpr ⟨_, hl, rfl⟩
    have hj' : w.db.advisory lockKey = some j := (h.lock j).mpr ⟨l₁, hl₁, by simpa using hholds⟩
    exact hj (Option.some.inj (hj'.symm.trans hi))
  · rw [hcs]
    refine ⟨hfinish.1, List.mem_cons_self, ?_⟩
    rw [hinserted]
    rcases hfirst : committers (seeders ls) w.log with _ | ⟨k, ks⟩
    · rw [if_pos rfl, List.getLast?_singleton, if_pos rfl, ← List.length_map (·.id), inserted_absent hbuild]
    · have hne : (i :: k :: ks).getLast? ≠ some i := by
        rw [List.getLast?_cons_cons]
        exact fun hlast => hnot (hfirst ▸ List.mem_of_getLast? hlast)
      rw [if_neg (List.cons_ne_nil _ _), if_neg hne]
      rfl

theorem seeder_step (hnodup : (Seed.ids uuid5).Nodup) (h : Inv uuid5 t₀ w ls) (hl : ls i = some l) (hseeds : l.seeds = true)
    {o : Op} (hcan : Performs l o) (hen : World.enabled i o w = true) :
    ∃ l', Moves E uuid5 l o (World.exec E i o w).1 l' ∧ l'.seeds = true ∧
      Inv uuid5 t₀ (World.exec E i o w).2 (update ls i (some l')) := by
  cases l with
  | request fresh found => cases hseeds
  | waiting => exact step_waiting h hl hcan hen
  | locked => exact step_locked h hl hcan hen
  | seeding now todo missed inserted =>
    cases o with
    | select q =>
      cases q with
      | byId id =>
        obtain ⟨rfl, c, rest, rfl, rfl⟩ := hcan
        exact step_lookup hnodup h hl
      | _ => exact hcan.elim
    | insertRow c =>
      obtain ⟨rfl, rest, rfl⟩ := hcan
      exact step_insert hnodup h hl hen
    | commit =>
      obtain rfl : todo = [] := hcan
      exact step_commit hnodup h hl
    | close => exact ⟨_, rfl, rfl, seeder_close h hl rfl⟩
    | _ => exact hcan.elim
  | committed n =>
    obtain rfl : o = .close := hcan
    have hfit := h.fits i _ hl
    exact ⟨_, rfl, rfl, inv_close h hl rfl ⟨Function.update_self .., hfit.2⟩⟩
  | closed n => exact hcan.elim

end

end CivicPulse.Seeding
