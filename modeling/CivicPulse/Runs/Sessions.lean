/-
  CivicPulse.Runs.Sessions — the database under concurrent requests: what a request's
  phase says of its session, and what one operation does to it and to the others.

  - `kept_lock` … `kept_finish`: each operation takes its own session from one phase to the
    next and leaves every other session where it is, because a row is written only under
    its lock.
  - `kept_commit`: a commit is `Legal`, whatever was committed since its row was read.
-/

import CivicPulse.Runs.Requests
import CivicPulse.Store.Frame
import CivicPulse.Store.History

namespace CivicPulse.Request

open Text Lang

/-- What the committed table holds for a phase. -/
def Sees (t : Table) : Phase → Prop
  | .locked row => t.find row.id = some row
  | .moved row s _ => t.find row.id = some row ∧ canTransition row.status s = true
  | .inserted row => t.find row.id = none ∧ row.status = .open_
  | _ => True

/-- The commits a phase stands for. -/
def Phase.committed (i : Nat) : Phase → List Commit
  | .done ws t => [⟨i, ws, t⟩]
  | _ => []

/-- A session's commits. -/
def commitsOf (db : Db) (i : Nat) : List Commit := db.commits.filter fun k => k.tid = i

/-- Session `i` is in phase `p`. -/
structure Session (db : Db) (i : Nat) (p : Phase) : Prop where
  pending : db.pending i = p.pending
  lock : ∀ id, db.locks id = some i ↔ p.lock = some id
  sees : Sees db.table p
  commits : commitsOf db i = p.committed i

/-- What one operation of session `i` does to the database. -/
structure Kept (t₀ : Table) (i : Nat) (db db' : Db) (p : Phase) : Prop where
  own : Session db' i p
  others : ∀ j q, j ≠ i → Session db j q → Session db' j q
  history : History t₀ db'.commits db'.table
  grows : db'.commits = db.commits ∨ ∃ k, db'.commits = k :: db.commits

variable {t₀ : Table} {db db' : Db} {i j : Nat} {p : Phase}

/-- A session is where it was if its own entries are, and the row it has locked. -/
theorem Session.frame (h : Session db j p) (hpending : db'.pending j = db.pending j)
    (hlock : ∀ id, db'.locks id = some j ↔ db.locks id = some j)
    (hfind : ∀ id, p.lock = some id → db'.table.find id = db.table.find id)
    (hcommits : commitsOf db' j = commitsOf db j) : Session db' j p := by
  refine ⟨hpending.trans h.pending, fun id => (hlock id).trans (h.lock id), ?_, hcommits.trans h.commits⟩
  have hs := h.sees
  cases p with
  | locked row =>
    show db'.table.find row.id = some row
    rw [hfind row.id rfl]
    exact hs
  | moved row s at_ =>
    refine ⟨?_, hs.2⟩
    rw [hfind row.id rfl]
    exact hs.1
  | inserted row =>
    refine ⟨?_, hs.2⟩
    rw [hfind row.id rfl]
    exact hs.1
  | idle => trivial
  | done ws t => trivial

theorem kept_same (h : Session db i p) (hh : History t₀ db.commits db.table) : Kept t₀ i db db p :=
  ⟨h, fun _ _ _ hq => hq, hh, .inl rfl⟩

/-- What a session without writes sees. -/
theorem view_idle (h : Session db i p) (hp : p.pending = []) : db.view i = db.table := by
  rw [Db.view, h.pending, hp]
  rfl

/-! ## Locks -/

/-- Taking a free lock takes it from nobody. -/
theorem lock_other {id : Uuid} (hfree : db.free i id = true) (hj : j ≠ i) (id' : Uuid) :
    db.lock i id id' = some j ↔ db.locks id' = some j := by
  unfold Db.lock
  by_cases e : id' = id
  · subst e
    rw [Function.update_self]
    have hne : db.locks id' ≠ some j := by
      intro h
      rw [Db.free, h] at hfree
      exact hj (by simpa using hfree)
    exact ⟨fun h => absurd (Option.some.inj h).symm hj, fun h => absurd h hne⟩
  · rw [Function.update_of_ne e]

/-- The lock that is taken is the only one. -/
theorem lock_own {id : Uuid} (hold : ∀ id', db.locks id' = some i → id' = id) (id' : Uuid) :
    db.lock i id id' = some i ↔ some id = some id' := by
  unfold Db.lock
  by_cases e : id' = id
  · subst e
    simp
  · rw [Function.update_of_ne e]
    exact ⟨fun h => absurd (hold id' h) e, fun h => absurd (Option.some.inj h).symm e⟩

/-- `SELECT … FOR UPDATE` of a row that is there. -/
theorem kept_lock (h : Session db i .idle) (hh : History t₀ db.commits db.table) {row : Complaint}
    (hfind : db.table.find row.id = some row) (hfree : db.free i row.id = true) :
    Kept t₀ i db { db with locks := db.lock i row.id } (.locked row) where
  own := by
    refine ⟨h.pending, lock_own fun id' hid' => ?_, hfind, h.commits⟩
    cases (h.lock id').mp hid'
  others j q hj hq := hq.frame rfl (lock_other hfree hj) (fun _ _ => rfl) rfl
  history := hh
  grows := .inl rfl

/-- A write under a lock that is free or the session's own. -/
theorem kept_write {p' : Phase} {id : Uuid} {x : Write} (h : Session db i p) (hh : History t₀ db.commits db.table)
    (hp : p.pending = []) (hlock : p.lock = none ∨ p.lock = some id) (hfree : db.free i id = true)
    (hp' : p'.pending = [x]) (hlock' : p'.lock = some id) (hsees : Sees db.table p')
    (hcommits : p'.committed i = p.committed i) : Kept t₀ i db (db.write i x id) p' where
  own := by
    refine ⟨?_, fun id' => ?_, hsees, h.commits.trans hcommits.symm⟩
    · simp only [Db.write, Function.update_self, h.pending, hp, List.nil_append, hp']
    · rw [hlock']
      refine lock_own (fun id'' hid => ?_) id'
      have hl := (h.lock id'').mp hid
      rcases hlock with e | e
      · rw [e] at hl; cases hl
      · rw [e] at hl; exact (Option.some.inj hl).symm
  others j q hj hq := hq.frame (Function.update_of_ne hj _ _) (lock_other hfree hj) (fun _ _ => rfl) rfl
  history := hh
  grows := .inl rfl

/-! ## The end of a transaction -/

/-- A rollback, and the end of a session. -/
theorem kept_finish (h : Session db i p) (hh : History t₀ db.commits db.table) : Kept t₀ i db (db.finish i) p.released where
  own := by
    have hpending : p.released.pending = [] := by cases p <;> rfl
    have hlock : p.released.lock = none := by cases p <;> rfl
    refine ⟨?_, fun id => ?_, ?_, ?_⟩
    · simp only [Db.finish, Function.update_self, hpending]
    · rw [World.finish_locks, hlock]
      exact ⟨fun h => absurd rfl h.1, fun h => by cases h⟩
    · cases p <;> trivial
    · have := h.commits
      cases p <;> exact this
  others j q hj hq := hq.frame (Function.update_of_ne hj _ _) (fun id => by rw [World.finish_locks]; exact and_iff_right hj)
    (fun _ _ => rfl) rfl
  history := hh
  grows := .inl rfl

/-- What is not committed is legal now, however long ago its row was read. -/
theorem legal_pending {t : Table} (hp : p.pending ≠ []) (h : Sees t p) : Legal t p.pending := by
  cases p with
  | moved row s at_ => exact .moved row s at_ h.1 h.2
  | inserted row => exact .created row (Table.find_none.mp h.1) h.2
  | idle => exact absurd rfl hp
  | locked row => exact absurd rfl hp
  | done ws t => exact absurd rfl hp

/-- What is committed is there. -/
theorem stored_pending {t : Table} (h : Sees t p) : p.Stored (t.after p.pending) := by
  cases p with
  | moved row s at_ =>
    show (t.setStatus row.id s at_).find row.id = _
    rw [Table.find_setStatus, h.1, Option.map_some, if_pos rfl]
  | inserted row =>
    show (t.insert row).find row.id = _
    rw [Table.find_insert (Table.find_none.mp h.1), if_pos rfl]
  | idle => trivial
  | locked row => trivial
  | done ws t => trivial

/-- The row a transaction writes is the one it has locked. -/
theorem find_pending {t : Table} (hp : p.pending ≠ []) (h : Sees t p) {id : Uuid} (hid : p.lock ≠ some id) :
    (t.after p.pending).find id = t.find id := by
  cases p with
  | moved row s at_ =>
    have hne : id ≠ row.id := fun e => hid (congrArg some e.symm)
    show (t.setStatus row.id s at_).find id = t.find id
    rw [Table.find_setStatus]
    simp [hne]
  | inserted row =>
    have hne : id ≠ row.id := fun e => hid (congrArg some e.symm)
    show (t.insert row).find id = t.find id
    rw [Table.find_insert (Table.find_none.mp h.1), if_neg hne]
  | idle => exact absurd rfl hp
  | locked row => exact absurd rfl hp
  | done ws t => exact absurd rfl hp

theorem kept_commit (h : Session db i p) (hh : History t₀ db.commits db.table) (hp : p.pending ≠ []) :
    Kept t₀ i db (db.commit i) (.done p.pending (db.view i)) := by
  have hview : db.view i = db.table.after p.pending := by rw [Db.view, h.pending]
  have hcommit : db.commit i =
      { db.finish i with table := db.view i, commits := ⟨i, p.pending, db.view i⟩ :: db.commits } := by
    unfold Db.commit
    rw [h.pending, if_neg (by simpa using hp)]
  have hnone : p.committed i = [] := by
    cases p with
    | done ws t => exact absurd rfl hp
    | _ => rfl
  rw [hcommit]
  refine ⟨⟨?_, fun id => ?_, trivial, ?_⟩, fun j q hj hq => ?_, ?_, .inr ⟨_, rfl⟩⟩
  · simp only [Db.finish, Function.update_self]
    rfl
  · rw [show ({ db.finish i with table := _, commits := _ } : Db).locks = (db.finish i).locks from rfl, World.finish_locks]
    exact ⟨fun h => absurd rfl h.1, fun h => by cases h⟩
  · show List.filter _ (⟨i, p.pending, db.view i⟩ :: db.commits) = _
    rw [List.filter_cons_of_pos (by simp), show List.filter (fun k => decide (k.tid = i)) db.commits = [] from
      h.commits.trans hnone]
    rfl
  · refine hq.frame (Function.update_of_ne hj _ _) (fun id => ?_) (fun id hid => ?_) ?_
    · rw [show ({ db.finish i with table := _, commits := _ } : Db).locks = (db.finish i).locks from rfl, World.finish_locks]
      exact and_iff_right hj
    · -- the other session's row is locked, so it is not the one that is written
      show (db.view i).find id = db.table.find id
      rw [hview]
      refine find_pending hp h.sees fun hown => hj ?_
      have h1 := (h.lock id).mpr hown
      rw [(hq.lock id).mpr hid] at h1
      exact Option.some.inj h1
    · show List.filter _ (⟨i, p.pending, db.view i⟩ :: db.commits) = _
      rw [List.filter_cons_of_neg (by simpa using fun e => hj e.symm)]
      rfl
  · show History t₀ (⟨i, p.pending, db.view i⟩ :: db.commits) (db.view i)
    rw [hview]
    exact .commit i p.pending hh (legal_pending hp h.sees)

/-- The only commit of a finished transaction, where it stands among all. -/
theorem commit_position {ws : List Write} {t : Table} (h : commitsOf db i = [⟨i, ws, t⟩]) :
    ∃ newer older, db.commits = newer ++ ⟨i, ws, t⟩ :: older := by
  have hmem : (⟨i, ws, t⟩ : Commit) ∈ commitsOf db i := by
    rw [h]
    exact List.mem_singleton_self _
  exact List.append_of_mem (List.mem_filter.mp hmem).1

end CivicPulse.Request
