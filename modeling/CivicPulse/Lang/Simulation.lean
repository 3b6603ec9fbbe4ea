/-
  CivicPulse.Lang.Simulation — programs that do what others do, and more besides.

  Two machines, and two programs for each call. A step of the first machine is matched by at
  most one step of the second, which may stay where it is. What ties two threads together is
  read off the programs that are left and off what is to be seen of each thread in the shared
  states, which no other thread changes.
  - `Simulation.steps`: every run of the first programs is matched by a run of the second.
-/

import CivicPulse.Lang.Pool

namespace CivicPulse.Lang

open Function (update update_self update_of_ne)

variable {S S' : Sig} {Call α β : Type}

structure Simulation (M' : Machine S') (M : Machine S) (code' : Call → Prog S' β) (code : Call → Prog S α) (V' V : Type) where
  shared : M'.State → M.State → Prop
  /-- What is to be seen of a thread, and what was before it started. -/
  seen' : Nat → M'.State → V'
  seen : Nat → M.State → V
  start' : V'
  start : V
  matched : Call → V' → V → Prog S' β → Prog S α → Prop
  starts : ∀ c, matched c start' start (code' c) (code c)
  frame' : ∀ {i j} o s, j ≠ i → seen' j (M'.exec i o s).2 = seen' j s
  frame : ∀ {i j} o s, j ≠ i → seen j (M.exec i o s).2 = seen j s
  exec : ∀ {s' s i c o' k' p}, shared s' s → matched c (seen' i s') (seen i s) (.op o' k') p → M'.enabled i o' s' = true →
    (shared (M'.exec i o' s').2 s ∧ matched c (seen' i (M'.exec i o' s').2) (seen i s) (k' (M'.exec i o' s').1) p) ∨
    ∃ o k, p = .op o k ∧ M.enabled i o s = true ∧ shared (M'.exec i o' s').2 (M.exec i o s).2 ∧
      matched c (seen' i (M'.exec i o' s').2) (seen i (M.exec i o s).2) (k' (M'.exec i o' s').1) (k (M.exec i o s).1)

namespace Simulation

variable {M' : Machine S'} {M : Machine S} {code' : Call → Prog S' β} {code : Call → Prog S α} {V' V : Type}
  {Z : Simulation M' M code' code V' V}

/-- Thread by thread, the pools are matched. -/
structure Related (Z : Simulation M' M code' code V' V) (P' : Pool M' Call β) (P : Pool M Call α) : Prop where
  shared : Z.shared P'.shared P.shared
  idle : ∀ i, P'.threads i = none → P.threads i = none ∧ Z.seen' i P'.shared = Z.start' ∧ Z.seen i P.shared = Z.start
  busy : ∀ i t, P'.threads i = some t →
    ∃ p, P.threads i = some ⟨t.call, p⟩ ∧ Z.matched t.call (Z.seen' i P'.shared) (Z.seen i P.shared) t.prog p

variable {P' Q' : Pool M' Call β} {P : Pool M Call α}

/-- One thread moves, or starts; the others are where they were. -/
theorem Related.moved (h : Z.Related P' P) {i : Nat} {t : Thread S' Call β} {p : Prog S α} {s' : M'.State} {s : M.State}
    (hshared : Z.shared s' s) (hframe' : ∀ j, j ≠ i → Z.seen' j s' = Z.seen' j P'.shared)
    (hframe : ∀ j, j ≠ i → Z.seen j s = Z.seen j P.shared) (hm : Z.matched t.call (Z.seen' i s') (Z.seen i s) t.prog p) :
    Z.Related ⟨s', update P'.threads i (some t)⟩ ⟨s, update P.threads i (some ⟨t.call, p⟩)⟩ := by
  refine ⟨hshared, fun j hj => ?_, fun j u hj => ?_⟩
  · obtain ⟨e, hj⟩ := update_none hj
    show update P.threads i _ j = none ∧ Z.seen' j s' = Z.start' ∧ Z.seen j s = Z.start
    rw [update_of_ne e, hframe' j e, hframe j e]
    exact h.idle j hj
  · rcases update_some hj with ⟨rfl, rfl⟩ | ⟨e, hj⟩
    · exact ⟨p, update_self .., hm⟩
    · show ∃ q, update P.threads i _ j = _ ∧ Z.matched u.call (Z.seen' j s') (Z.seen j s) u.prog q
      rw [update_of_ne e, hframe' j e, hframe j e]
      exact h.busy j u hj

theorem step (h : Z.Related P' P) (hs : Pool.Step code' P' Q') : ∃ Q, Pool.Steps code P Q ∧ Z.Related Q' Q := by
  cases hs with
  | start i c hn =>
    obtain ⟨hn', hseen', hseen⟩ := h.idle i hn
    have hm : Z.matched c (Z.seen' i P'.shared) (Z.seen i P.shared) (code' c) (code c) := by
      rw [hseen', hseen]
      exact Z.starts c
    exact ⟨_, .single (.start P i c hn'), h.moved h.shared (fun _ _ => rfl) (fun _ _ => rfl) hm⟩
  | exec i c o' k' ht he =>
    obtain ⟨p, hp, hm⟩ := h.busy i _ ht
    rcases Z.exec h.shared hm he with ⟨hshared, hm'⟩ | ⟨o, k, rfl, hen, hshared, hm'⟩
    · -- the other thread stays where it is
      have hstay : update P.threads i (some ⟨c, p⟩) = P.threads := by rw [← hp, Function.update_eq_self]
      have hrel := h.moved (t := ⟨c, k' _⟩) hshared (fun _ e => Z.frame' o' _ e) (fun _ _ => rfl) hm'
      rw [hstay] at hrel
      exact ⟨P, .refl, hrel⟩
    · exact ⟨_, .single (.exec P i c o k hp hen),
        h.moved hshared (fun _ e => Z.frame' o' _ e) (fun _ e => Z.frame o _ e) hm'⟩

/-- Every run is matched by a run of the other programs. -/
theorem steps (h : Z.Related P' P) (hs : Pool.Steps code' P' Q') : ∃ Q, Pool.Steps code P Q ∧ Z.Related Q' Q := by
  induction hs with
  | refl => exact ⟨P, .refl, h⟩
  | tail _ hstep ih =>
    obtain ⟨Q₁, hQ₁, hrel⟩ := ih
    obtain ⟨Q₂, hQ₂, hrel'⟩ := step hrel hstep
    exact ⟨Q₂, hQ₁.trans hQ₂, hrel'⟩

theorem fresh_related {s' : M'.State} {s : M.State} (h : Z.shared s' s) (h' : ∀ i, Z.seen' i s' = Z.start')
    (hs : ∀ i, Z.seen i s = Z.start) : Z.Related (.fresh s') (.fresh s) :=
  ⟨h, fun i _ => ⟨rfl, h' i, hs i⟩, fun _ _ ht => by cases ht⟩

end Simulation

end CivicPulse.Lang
