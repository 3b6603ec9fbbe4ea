/-
  CivicPulse.Runs.Progress — no request waits for ever.

  A statement waits for a row that another transaction has locked, and a transaction that
  has a row locks no other: whoever holds a lock waits for nobody, and once those have ended
  nobody has to wait.
  - `holder_runs`: a request that has asked for its row can be run to its end.
  - `requests_drain`: from any state of any run, so can all requests.
-/

import CivicPulse.Runs.Board

namespace CivicPulse.Request

open Text Lang

open Function (update)

variable [Platform] {E : Env} {t₀ : Table} {w : World} {ls : Nat → Option (Loc × Note)} {i : Nat} {l l' : Loc} {n n' : Note} {o : Op}
  {P : Pool (machine E) (App × Call) Reply}

/-! ## Who waits -/

/-- A request that has asked for its row waits for no other. -/
theorem asked_enabled (hf : Fits t₀ w.db i l) (hcan : Performs l o) (hnc : NoteCan n o) (hasked : n.asked = true) :
    World.enabled i o w = true := by
  cases o with
  | selectForUpdate id =>
    obtain ⟨-, hnot, -⟩ := hnc
    rw [hasked] at hnot
    cases hnot
  | insert d =>
    obtain ⟨hnot, -⟩ := hnc
    rw [hasked] at hnot
    cases hnot
  | updateStatus id s =>
    obtain ⟨row, hphase, rfl, -⟩ := hcan
    have hlock : w.db.locks row.id = some i := (hf.session.lock row.id).mpr (by rw [hphase]; rfl)
    show w.db.free i row.id = true
    rw [Db.free, hlock]
    simp
  | insertRow c => exact hcan.elim
  | advisoryLock key => exact hcan.elim
  | _ => rfl

/-- Nobody else has a row. -/
def Alone (i : Nat) (db : Db) : Prop := ∀ j, j ≠ i → ∃ p : Phase, p.lock = none ∧ Session db j p

omit [Platform] in
theorem Alone.free (h : Alone i w.db) (id : Uuid) : w.db.free i id = true := by
  rw [Db.free]
  cases hl : w.db.locks id with
  | none => rfl
  | some j =>
    by_cases e : j = i
    · simp [e]
    · obtain ⟨p, hp, hs⟩ := h j e
      rw [(hs.lock id).mp hl] at hp
      cases hp

theorem alone_enabled (h : Alone i w.db) (hcan : Performs l o) : World.enabled i o w = true := by
  cases o with
  | selectForUpdate id => simp [World.enabled, h.free id]
  | insert d => exact h.free d.id
  | updateStatus id s => exact h.free id
  | insertRow c => exact hcan.elim
  | advisoryLock key => exact hcan.elim
  | _ => rfl

theorem Alone.exec {A : World → Option Nat → Prop} {ls : Nat → Option Loc} (h : Alone i w.db) (hinv : Inv A t₀ w ls)
    (hl : ls i = some l) (hcan : Performs l o) : Alone i (World.exec E i o w).2.db := by
  obtain ⟨_, _, hkept, _⟩ := exec_fits (E := E) hinv hl o hcan (alone_enabled h hcan)
  intro j hj
  obtain ⟨p, hp, hs⟩ := h j hj
  exact ⟨p, hp, hkept.others j p hj hs⟩

/-! ## Running to the end -/

omit [Platform] in
theorem note_asked (hasked : n.asked = true) (r : o.Ans) : (note n o r).asked = true := by
  cases o with
  | select q =>
    cases q with
    | byId id =>
      match r with
      | .error e => exact hasked
      | .ok none => exact hasked
      | .ok (some row) => exact hasked
    | _ => exact hasked
  | selectForUpdate id =>
    match r with
    | .error e => rfl
    | .ok none => rfl
    | .ok (some row) =>
      show (noteLocked n row).asked = true
      unfold noteLocked
      split
      · split <;> rfl
      · exact hasked
  | insert d => cases r <;> rfl
  | updateStatus id s => cases r <;> exact hasked
  | commit => cases r <;> exact hasked
  | _ => exact hasked

theorem ran_out {c : App × Call} {P' : Pool (machine E) (App × Call) Reply} (hs : Pool.Steps serve P P')
    (hj : ∀ j, j ≠ i → P'.threads j = P.threads j)
    (hend : (∃ a, P'.threads i = some ⟨c, .ret a⟩) ∨ ∃ e, P'.threads i = some ⟨c, .raise e⟩) : Outline.RunOut serve i P P' := by
  refine ⟨hs, hj, ?_⟩
  rcases hend with ⟨a, h⟩ | ⟨e, h⟩
  · exact ⟨_, h, trivial⟩
  · exact ⟨_, h, trivial⟩

/-- A request that has asked for its row can be run to its end, whatever the others do. -/
theorem holder_runs (hP : (annotated E t₀).At P ls) {t : Thread sig (App × Call) Reply} (ht : P.threads i = some t)
    (hl : ls i = some (l, n)) (hasked : n.asked = true) : ∃ P', Outline.RunOut serve i P P' := by
  obtain ⟨c, p⟩ := t
  obtain ⟨P', -, -, hs, hj, -, -, -, hend⟩ := Outline.runs_out (annotated_sound E t₀) (G := fun _ ln => ln.2.asked = true)
    (fun {s ls ln} o hinv hi hg hcan => by
      refine ⟨asked_enabled (hinv.1.1.fits i ln.1 (firsts_some hi)) hcan.1 hcan.2 hg, fun ln' hs => ?_⟩
      rw [hs.2.2]
      exact note_asked hg _) ht hP hl hasked
  exact ⟨P', ran_out hs hj hend⟩

/-- While nobody else has a row, any request can. -/
theorem alone_runs (hP : (annotated E t₀).At P ls) {t : Thread sig (App × Call) Reply} (ht : P.threads i = some t)
    (halone : Alone i P.shared.db) : ∃ P', Outline.RunOut serve i P P' := by
  obtain ⟨c, p⟩ := t
  obtain ⟨ln, hl, -⟩ := hP.busy i _ ht
  obtain ⟨P', -, -, hs, hj, -, -, -, hend⟩ := Outline.runs_out (annotated_sound E t₀) (G := fun w _ => Alone i w.db)
    (fun {s ls ln} o hinv hi hg hcan =>
      ⟨alone_enabled hg hcan.1, fun _ _ => hg.exec hinv.1.1 (firsts_some hi) hcan.1⟩) ht hP hl halone
  exact ⟨P', ran_out hs hj hend⟩

/-- A request that has ended has no row. -/
theorem post_lock {c : App × Call} {r : Except Exc Reply} (h : Post c l r) : l.phase.lock = none := by
  obtain ⟨app, call⟩ := c
  cases r with
  | error e => rw [show l.phase = .idle from h]; rfl
  | ok reply =>
    cases call with
    | create data =>
      obtain ⟨_, _, _, hphase, _⟩ := h
      rw [hphase]
      rfl
    | changeStatus id target =>
      obtain ⟨_, _, hphase, _⟩ := h
      rw [hphase]
      rfl
    | stats => rw [h.1]; rfl
    | get id => rw [h.1]; rfl
    | list f page pageSize => rw [h.1]; rfl
    | invalid errors => exact h.elim

/-- When everybody at work has not asked for a row yet, nobody has one. -/
theorem nobody_holds (hP : (annotated E t₀).At P ls)
    (h : ∀ j t l n, P.threads j = some t → ¬ t.prog.Ended → ls j = some (l, n) → n.asked = false) (i : Nat) :
    Alone i P.shared.db := by
  intro j _
  obtain ⟨es, hlinear⟩ := hP.inv.2
  cases ht : P.threads j with
  | none => exact ⟨.idle, rfl, hP.inv.1.1.idle j (firsts_none (hP.idle j ht))⟩
  | some t =>
    obtain ⟨⟨l, n⟩, hl, hb, hf⟩ := hP.busy j t ht
    refine ⟨l.phase, ?_, (hP.inv.1.1.fits j l (firsts_some hl)).session⟩
    by_cases hend : t.prog.Ended
    · obtain ⟨c, p⟩ := t
      cases p with
      | ret a => exact post_lock (c := c) (r := .ok a) hf.1
      | raise e => exact post_lock (c := c) (r := .error e) hf.1
      | op o k => exact hend.elim
    · rw [(hlinear.noted j l n hl).waits (h j t l n ht hend hl)]
      rfl

/-- Somebody at work can be run to the end. -/
theorem somebody_runs (hP : (annotated E t₀).Holds P) (hbusy : ∃ j t, P.threads j = some t ∧ ¬ t.prog.Ended) :
    ∃ i t P', P.threads i = some t ∧ ¬ t.prog.Ended ∧ Outline.RunOut serve i P P' := by
  obtain ⟨ls, hAt⟩ := hP
  by_cases hasked : ∃ j t l n, P.threads j = some t ∧ ¬ t.prog.Ended ∧ ls j = some (l, n) ∧ n.asked = true
  · obtain ⟨j, t, l, n, ht, hwork, hl, hasked⟩ := hasked
    obtain ⟨P', hrun⟩ := holder_runs hAt ht hl hasked
    exact ⟨j, t, P', ht, hwork, hrun⟩
  · obtain ⟨j, t, ht, hwork⟩ := hbusy
    have halone : Alone j P.shared.db := nobody_holds hAt (fun j t l n ht hwork hl => by
      by_contra hn
      exact hasked ⟨j, t, l, n, ht, hwork, hl, by simpa using hn⟩) j
    obtain ⟨P', hrun⟩ := alone_runs hAt ht halone
    exact ⟨j, t, P', ht, hwork, hrun⟩

/-- Whatever has happened so far, all the requests at work can be run to their ends. -/
theorem requests_drain {w₀ : World} (h₀ : w₀.db = opened t₀) (hlog : w₀.log = []) (hP : RequestRun E w₀ P) :
    ∃ P', Pool.Steps serve P P' ∧ (∀ j, P'.threads j = none ↔ P.threads j = none) ∧
      ∀ j t, P'.threads j = some t → t.prog.Ended := by
  obtain ⟨is, his⟩ := Pool.started_finite hP
  exact Outline.drain (annotated_sound E t₀) (fun P hP hbusy => somebody_runs hP hbusy) is (annotated_run h₀ hlog hP)
    fun j t ht _ => his j (by rw [ht]; simp)

/-- Two operators want the same row, and one of them has it. -/
def queue : Pool (@machine .ascii (.calm fun _ _ _ => .error .triageTimeout)) (App × Call) Reply :=
  Pool.schedule (@serve .ascii)
    [.start 0 (replica, .changeStatus 7 .inProgress), .start 1 (replica, .changeStatus 7 .rejected), .exec 0, .exec 1]
    (.fresh (.initial potholes))

omit [Platform] in
theorem requests_drain_queue : queue.shared.db.locks 7 = some 0 ∧
    ∃ P', Pool.Steps (@serve .ascii) queue P' ∧ (∀ j, P'.threads j = none ↔ queue.threads j = none) ∧
      ∀ j t, P'.threads j = some t → t.prog.Ended :=
  ⟨by decide, @requests_drain .ascii _ _ _ (.initial potholes) rfl rfl (Pool.schedule_steps _ _ _)⟩

end CivicPulse.Request
