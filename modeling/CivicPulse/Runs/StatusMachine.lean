/-
  CivicPulse.Runs.StatusMachine — the complaints' status machine under concurrent
  requests: any number of status changes, submissions and reads, in any order, with any
  failures.

  - `status_machine`: every complaint's committed statuses are a path of `TRANSITIONS`;
    status changes that succeed and committed steps are in one-to-one correspondence; a
    row in a terminal status stays as it is; a request that fails commits nothing.
-/

import CivicPulse.Runs.RequestRuns

namespace CivicPulse.Request

open Text Lang

/-- From one version to the next, complaint `id` takes the step to `target` and becomes `c`;
    nothing else changes, in it or in the other rows. -/
structure Edge (before after : Table) (id : Uuid) (target : Status) (c : Complaint) : Prop where
  moved : ∃ row, before.find id = some row ∧ canTransition row.status target = true ∧
    c = { row with status := target, updatedAt := c.updatedAt }
  now : after.find id = some c
  others : ∀ j, j ≠ id → after.find j = before.find j

/-- What one committed status change does. -/
theorem legal_edge {t : Table} {id : Uuid} {target : Status} {at_ : Int} (h : Legal t [.setStatus id target at_]) :
    ∃ c, c.updatedAt = at_ ∧ Edge t (t.after [.setStatus id target at_]) id target c := by
  cases h with
  | moved row s at_ hfind hcan =>
    refine ⟨{ row with status := target, updatedAt := at_ }, rfl, ⟨row, hfind, hcan, rfl⟩, ?_, fun j hj => ?_⟩
    · rw [after_singleton, Write.apply, Table.find_setStatus, hfind, Option.map_some, if_pos rfl]
    · rw [after_singleton, Write.apply, Table.find_setStatus]
      simp [hj]

variable [Platform] {E : Env} {t₀ : Table} {P : Pool (machine E) (App × Call) Reply}

structure StatusMachine (t₀ : Table) (P : Pool (machine E) (App × Call) Reply) : Prop where
  /-- The committed versions lead from the first table to the present one. -/
  versions : version t₀ P.shared.db.commits 0 = t₀ ∧
    version t₀ P.shared.db.commits P.shared.db.commits.length = P.shared.db.table
  /-- Newest first, a complaint's statuses are allowed steps; the newest is the present one. -/
  path : ∀ id, List.IsChain (fun new old => canTransition old new = true)
      (statuses P.shared.db.commits id ++ initialStatus t₀ id) ∧
    (P.shared.db.table.find id).map (·.status) = (statuses P.shared.db.commits id ++ initialStatus t₀ id).head?
  /-- A row in a terminal status never changes again. -/
  terminal : ∀ id row v v', v ≤ v' → v' ≤ P.shared.db.commits.length →
    (version t₀ P.shared.db.commits v).find id = some row → terminal row.status = true →
    (version t₀ P.shared.db.commits v').find id = some row
  /-- A status change that succeeds has committed once: one step, of its complaint only. -/
  success : ∀ i app id target reply, P.threads i = some ⟨(app, .changeStatus id target), .ret reply⟩ →
    ∃ newer older c t, reply = .complaint c ∧
      P.shared.db.commits = newer ++ ⟨i, [.setStatus id target c.updatedAt], t⟩ :: older ∧
      commitsOf P.shared.db i = [⟨i, [.setStatus id target c.updatedAt], t⟩] ∧
      Edge (version t₀ P.shared.db.commits older.length) (version t₀ P.shared.db.commits (older.length + 1)) id target c
  /-- A request that fails has committed nothing. -/
  failure : ∀ i c e, P.threads i = some ⟨c, .raise e⟩ → commitsOf P.shared.db i = []
  /-- A committed step is the only one of a call that asked for it and does not fail. -/
  edges : ∀ k ∈ P.shared.db.commits, ∃ c p, P.threads k.tid = some ⟨c, p⟩ ∧ Written c.2 k.writes ∧
    commitsOf P.shared.db k.tid = [k] ∧ ∀ e, p ≠ .raise e

section

variable {A : Option Nat → Prop} {ls : Nat → Option Loc}

theorem changed (h : (outline E A t₀).At P ls) {i : Nat} {app : App} {id : Uuid} {target : Status} {reply : Reply}
    (ht : P.threads i = some ⟨(app, .changeStatus id target), .ret reply⟩) :
    ∃ newer older c t, reply = .complaint c ∧
      P.shared.db.commits = newer ++ ⟨i, [.setStatus id target c.updatedAt], t⟩ :: older ∧
      commitsOf P.shared.db i = [⟨i, [.setStatus id target c.updatedAt], t⟩] ∧
      Edge (version t₀ P.shared.db.commits older.length) (version t₀ P.shared.db.commits (older.length + 1)) id target c := by
  obtain ⟨l, hl, hpost⟩ := h.returned ht
  obtain ⟨c, t, hphase, hfind, -, hreply⟩ := hpost
  have hsession := (h.inv.1.fits i l hl).session
  rw [hphase] at hsession
  have hcommits : commitsOf P.shared.db i = [⟨i, [.setStatus id target c.updatedAt], t⟩] := hsession.commits
  obtain ⟨newer, older, hks⟩ := commit_position hcommits
  refine ⟨newer, older, c, t, hreply, hks, hcommits, ?_⟩
  have hhist := h.inv.1.history
  rw [hks] at hhist ⊢
  obtain ⟨hlegal, htable, hafter⟩ := history_at hhist
  obtain ⟨c', -, hedge⟩ := legal_edge hlegal
  rw [← hafter] at hedge
  -- the reply is the row as it was committed
  obtain rfl : c' = c := Option.some.inj (hedge.now.symm.trans hfind)
  rw [← htable]
  exact hedge

theorem failed (h : (outline E A t₀).At P ls) {i : Nat} {c : App × Call} {e : Exc} (ht : P.threads i = some ⟨c, .raise e⟩) :
    commitsOf P.shared.db i = [] := by
  obtain ⟨l, hl, hpost⟩ := h.raised ht
  have hphase : l.phase = .idle := hpost
  have hsession := (h.inv.1.fits i l hl).session
  rw [hphase] at hsession
  exact hsession.commits

theorem committed_by (h : (outline E A t₀).At P ls) {k : Commit} (hk : k ∈ P.shared.db.commits) :
    ∃ c p, P.threads k.tid = some ⟨c, p⟩ ∧ Written c.2 k.writes ∧ commitsOf P.shared.db k.tid = [k] ∧ ∀ e, p ≠ .raise e := by
  have hmem : k ∈ commitsOf P.shared.db k.tid := List.mem_filter.mpr ⟨hk, by simp⟩
  cases ht : P.threads k.tid with
  | none =>
    have hnone := (h.inv.1.idle k.tid (h.idle k.tid ht)).commits
    rw [hnone] at hmem
    cases hmem
  | some t =>
    obtain ⟨l, hl, hcall, -⟩ := h.busy k.tid t ht
    have hfits := h.inv.1.fits k.tid l hl
    have hcommits := hfits.session.commits
    cases hp : l.phase with
    | done ws t' =>
      rw [hp] at hcommits
      rw [hcommits] at hmem
      have hk' : k = ⟨k.tid, ws, t'⟩ := List.mem_singleton.mp hmem
      have hw := hfits.writes ws (by rw [hp]; rfl)
      rw [show l.call = t.call from hcall] at hw
      refine ⟨t.call, t.prog, rfl, ?_, ?_, fun e he => ?_⟩
      · rw [hk']
        exact hw
      · rw [hcommits]
        exact congrArg (fun x => [x]) hk'.symm
      · have hnil := failed h (c := t.call) (e := e) (by rw [ht, ← he])
        rw [hnil] at hcommits
        cases hcommits
    | _ =>
      rw [hp] at hcommits
      rw [hcommits] at hmem
      cases hmem

end

theorem status_machine {w₀ : World} (h₀ : w₀.db = opened t₀) (hP : RequestRun E w₀ P) : StatusMachine t₀ P := by
  obtain ⟨ls, h⟩ := request_run (A := fun _ => True) (fun _ => trivial) h₀ (fun _ => trivial) hP
  have hhist := h.inv.1.history
  refine ⟨⟨version_zero, version_length hhist⟩, history_path hhist, ?_, ?_, ?_, ?_⟩
  · intro id row v v' hv hv' hfind hterm
    exact history_terminal hhist hv hv' hfind hterm
  · intro i app id target reply ht
    exact changed h ht
  · intro i c e ht
    exact failed h ht
  · intro k hk
    exact committed_by h hk

/-! ## Two operators -/

omit [Platform] in
section

/-- Two operators start on the same complaint, and take turns. -/
def operators : Pool (@machine .ascii (.calm fun _ _ _ => .error .triageTimeout)) (App × Call) Reply :=
  Pool.schedule (@serve .ascii)
    (.start 0 (replica, .changeStatus 7 .inProgress) :: .start 1 (replica, .changeStatus 7 .inProgress) ::
      (List.replicate 12 [.exec 0, .exec 1]).flatten)
    (.fresh (.initial potholes))

/-- One of them succeeds. -/
theorem status_machine_operators : (operators.result 0).isSome = true ∧ operators.result 1 = none ∧
    operators.shared.db.commits.map (·.tid) = [0] ∧ @StatusMachine .ascii _ potholes operators :=
  ⟨by decide +kernel, by decide +kernel, by decide +kernel,
    @status_machine .ascii _ _ _ (.initial potholes) rfl (Pool.schedule_steps _ _ _)⟩

end

end CivicPulse.Request
