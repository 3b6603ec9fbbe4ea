/-
  CivicPulse.Store.History — the committed versions of the table, and what holds of them
  when every transaction is `Legal`: it inserts one new open complaint, or moves one
  complaint along `TRANSITIONS`.

  - `history_path`: the statuses a complaint was given are a path of `TRANSITIONS` from
    its first one to its present one.
  - `history_terminal`: a row in a terminal status stays as it is.
  - `history_length`: a later version has no fewer rows, and as many if nothing is submitted
    in between (`history_length_eq`).
  - `version_cons`: a version is the same however many commits follow.
  - `history_at`: what a commit did to the version it found.
  - `history_keeps`: what every transaction keeps holds from any version to any later one.
-/

import Mathlib.Data.List.Chain
import CivicPulse.Store.World

namespace CivicPulse

open Text

/-- What one transaction may write to `t`. -/
inductive Legal (t : Table) : List Write → Prop
  | created (c : Complaint) : c.id ∉ t.ids → c.status = .open_ → Legal t [.insert c]
  | moved (row : Complaint) (s : Status) (at_ : Int) : t.find row.id = some row → canTransition row.status s = true →
      Legal t [.setStatus row.id s at_]

/-- The commits, newest first, that lead from `t₀` to `t`. -/
inductive History (t₀ : Table) : List Commit → Table → Prop
  | nil : History t₀ [] t₀
  | commit {ks t} (i : Nat) (ws : List Write) : History t₀ ks t → Legal t ws →
      History t₀ (⟨i, ws, t.after ws⟩ :: ks) (t.after ws)

/-- The table after the `v` oldest commits. -/
def version (t₀ : Table) : List Commit → Nat → Table
  | [], _ => t₀
  | k :: ks, v => if ks.length < v then k.table else version t₀ ks v

variable {t₀ t : Table} {ks : List Commit} {id : Uuid}

theorem version_cons {k : Commit} {v : Nat} (h : v ≤ ks.length) : version t₀ (k :: ks) v = version t₀ ks v := by
  rw [version, if_neg (by omega)]

theorem version_zero : version t₀ ks 0 = t₀ := by
  induction ks with
  | nil => rfl
  | cons k ks ih => rw [version_cons (Nat.zero_le _), ih]

theorem version_length (h : History t₀ ks t) : version t₀ ks ks.length = t := by
  cases h with
  | nil => rfl
  | commit i ws _ _ => rw [version, if_pos (by simp)]

@[simp] theorem after_singleton (w : Write) : t.after [w] = w.apply t := rfl

theorem version_append {older : List Commit} {v : Nat} (hv : v ≤ older.length) (newer : List Commit) :
    version t₀ (newer ++ older) v = version t₀ older v := by
  induction newer with
  | nil => rfl
  | cons k newer ih =>
    rw [List.cons_append, version_cons (by rw [List.length_append]; omega), ih]

/-- A transaction is legal for the version it finds, and leaves the next one. -/
theorem history_at {newer older : List Commit} {k : Commit} (h : History t₀ (newer ++ k :: older) t) :
    Legal (version t₀ (newer ++ k :: older) older.length) k.writes ∧
      k.table = version t₀ (newer ++ k :: older) (older.length + 1) ∧
        k.table = (version t₀ (newer ++ k :: older) older.length).after k.writes := by
  have hlater : History t₀ (k :: older) k.table := by
    induction newer generalizing t with
    | nil =>
      cases h with
      | commit i ws h hl => exact .commit i ws h hl
    | cons _ newer ih =>
      cases h with
      | commit _ _ h _ => exact ih h
  rw [version_append (by simp), version_append (by simp), version_cons (le_refl _), version, if_pos (Nat.lt_succ_self _)]
  generalize ht : k.table = u at hlater
  cases hlater with
  | commit i ws h hl =>
    rw [version_length h]
    exact ⟨hl, rfl, rfl⟩

theorem commit_at {n : Nat} (h : n < ks.length) : ∃ newer k older, ks = newer ++ k :: older ∧ older.length = n := by
  have hlt : ks.length - n - 1 < ks.length := by omega
  refine ⟨ks.take (ks.length - n - 1), ks[ks.length - n - 1], ks.drop (ks.length - n - 1 + 1), ?_, ?_⟩
  · rw [← List.drop_eq_getElem_cons hlt, List.take_append_drop]
  · rw [List.length_drop]
    omega

/-- What every transaction keeps, any number of them keeps. -/
theorem history_keeps {R : Table → Table → Prop} (h : History t₀ ks t) (hrefl : ∀ a, R a a)
    (htrans : ∀ a b c, R a b → R b c → R a c) {v v' : Nat} (hv : v ≤ v') (hv' : v' ≤ ks.length)
    (hstep : ∀ newer k older a, ks = newer ++ k :: older → v ≤ older.length → older.length < v' → Legal a k.writes →
      R a (a.after k.writes)) : R (version t₀ ks v) (version t₀ ks v') := by
  induction v', hv using Nat.le_induction with
  | base => exact hrefl _
  | succ n hn ih =>
    obtain ⟨newer, k, older, rfl, rfl⟩ := commit_at hv'
    obtain ⟨hl, htable, hafter⟩ := history_at h
    rw [← htable, hafter]
    refine htrans _ _ _ (ih (Nat.le_of_lt hv') ?_) (hstep _ _ _ _ rfl hn (Nat.lt_succ_self _) hl)
    intro newer' k' older' a he h1 h2
    exact hstep newer' k' older' a he h1 (Nat.lt_succ_of_lt h2)

/-! ## Statuses -/

/-- The status a write gives the complaint. -/
def Write.status (id : Uuid) : Write → Option Status
  | .insert c => if c.id = id then some c.status else none
  | .setStatus j s _ => if j = id then some s else none

/-- The statuses the commits gave the complaint, newest first. -/
def statuses (ks : List Commit) (id : Uuid) : List Status := ks.flatMap fun k => k.writes.filterMap (Write.status id)

/-- The status the complaint starts with, if it is there. -/
def initialStatus (t₀ : Table) (id : Uuid) : List Status := ((t₀.find id).map (·.status)).toList

/-- Each status was given by an allowed step from the one before; the newest is the
    complaint's. -/
theorem history_path (h : History t₀ ks t) (id : Uuid) :
    List.IsChain (fun new old => canTransition old new = true) (statuses ks id ++ initialStatus t₀ id) ∧
      (t.find id).map (·.status) = (statuses ks id ++ initialStatus t₀ id).head? := by
  induction h with
  | nil =>
    unfold initialStatus
    cases t₀.find id with
    | none => exact ⟨.nil, rfl⟩
    | some row => exact ⟨.singleton _, rfl⟩
  | @commit ks t i ws _ hl ih =>
    obtain ⟨hchain, hhead⟩ := ih
    have hcons : statuses (⟨i, ws, t.after ws⟩ :: ks) id = ws.filterMap (Write.status id) ++ statuses ks id := rfl
    rw [hcons, List.append_assoc]
    cases hl with
    | created c hc hopen =>
      rw [after_singleton, Write.apply, Table.find_insert hc]
      by_cases e : id = c.id
      · subst e
        -- no status so far: the complaint was not there
        have hnil : statuses ks c.id ++ initialStatus t₀ c.id = [] := by
          rw [Table.find_none.mpr hc] at hhead
          exact List.head?_eq_none_iff.mp hhead.symm
        simp [hnil, Write.status]
      · have hne : Write.status id (.insert c) = none := if_neg fun h => e h.symm
        simp [hne, e, hchain, hhead]
    | moved row s at_ hfind hcan =>
      rw [after_singleton, Write.apply, Table.find_setStatus]
      by_cases e : id = row.id
      · subst e
        rw [hfind] at hhead ⊢
        refine ⟨?_, by simp [Write.status]⟩
        obtain ⟨rest, hrest⟩ := List.head?_eq_some_iff.mp hhead.symm
        have hs : Write.status row.id (.setStatus row.id s at_) = some s := if_pos rfl
        rw [hrest] at hchain ⊢
        simp only [List.filterMap_cons, hs, List.filterMap_nil, List.cons_append, List.nil_append]
        exact .cons_cons hcan hchain
      · have hne : Write.status id (.setStatus row.id s at_) = none := if_neg fun h => e h.symm
        simp only [List.filterMap_cons, hne, List.filterMap_nil, List.nil_append, if_neg e, Option.map_id_fun', id_eq]
        exact ⟨hchain, by simpa using hhead⟩

/-- A row in a terminal status survives a transaction unchanged. -/
theorem legal_terminal {ws : List Write} (h : Legal t ws) {row : Complaint} (hfind : t.find id = some row)
    (hterm : terminal row.status = true) : (t.after ws).find id = some row := by
  cases h with
  | created c hc _ =>
    rw [after_singleton, Write.apply, Table.find_insert hc, if_neg, hfind]
    intro e
    exact hc (e ▸ Table.find_isSome.mp (by rw [hfind]; rfl))
  | moved row' s at_ hrow hcan =>
    rw [after_singleton, Write.apply, Table.find_setStatus, hfind, Option.map_some, if_neg]
    intro e
    rw [← e, hfind] at hrow
    cases hrow
    rw [not_canTransition_terminal hterm] at hcan
    cases hcan

theorem history_terminal (h : History t₀ ks t) {v v' : Nat} (hv : v ≤ v') (hv' : v' ≤ ks.length) {row : Complaint}
    (hfind : (version t₀ ks v).find id = some row) (hterm : terminal row.status = true) :
    (version t₀ ks v').find id = some row := by
  refine history_keeps (R := fun a b => a.find id = some row → b.find id = some row) h (fun _ => fun h => h) ?_ hv hv' ?_ hfind
  · intro a b c hab hbc ha
    exact hbc (hab ha)
  · intro _ k _ a _ _ _ hl ha
    exact legal_terminal hl ha hterm

/-! ## Rows -/

theorem legal_length {ws : List Write} (h : Legal t ws) : t.rows.length ≤ (t.after ws).rows.length := by
  cases h with
  | created c hc _ => rw [after_singleton, Write.apply, Table.rows_insert hc]; simp
  | moved row s at_ _ _ => rw [after_singleton, Write.apply, Table.setStatus]; simp

theorem history_length (h : History t₀ ks t) {v v' : Nat} (hv : v ≤ v') (hv' : v' ≤ ks.length) :
    (version t₀ ks v).rows.length ≤ (version t₀ ks v').rows.length :=
  history_keeps (R := fun a b => a.rows.length ≤ b.rows.length) h (fun _ => le_refl _) (fun _ _ _ => le_trans) hv hv'
    fun _ _ _ _ _ _ _ hl => legal_length hl

/-- Between versions `v` and `v'` no complaint is submitted. -/
def NoCreate (ks : List Commit) (v v' : Nat) : Prop :=
  ∀ newer k older c, ks = newer ++ k :: older → v ≤ older.length → older.length < v' → k.writes ≠ [.insert c]

theorem history_length_eq (h : History t₀ ks t) {v v' : Nat} (hv : v ≤ v') (hv' : v' ≤ ks.length) (hno : NoCreate ks v v') :
    (version t₀ ks v').rows.length = (version t₀ ks v).rows.length := by
  refine history_keeps (R := fun a b => b.rows.length = a.rows.length) h (fun _ => rfl) (fun _ _ _ hab hbc => hbc.trans hab)
    hv hv' ?_
  intro newer k older a he h1 h2 hl
  generalize hws : k.writes = ws at hl
  cases hl with
  | created c _ _ => exact absurd hws (hno newer k older c he h1 h2)
  | moved row s at_ _ _ => rw [after_singleton, Write.apply, Table.setStatus, List.length_map]

end CivicPulse
