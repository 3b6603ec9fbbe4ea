/-
  CivicPulse.Lang.Memory — machines that remember, and machines that do the same as another.

  `Machine.remember` keeps every state the machine has been in, so an invariant can speak
  of what was the case earlier. A machine is `Over` another when each of its operations is
  the other's on the part that `view` shows.
  - `Outline.lift_sound`: an outline for the machine below is one for the machine above.
-/

import CivicPulse.Lang.Pool

namespace CivicPulse.Lang

open Function (update)

variable {S : Sig}

/-- The machine and its states so far, newest first. -/
def Machine.remember (M : Machine S) : Machine S where
  State := M.State × List M.State
  enabled i o s := M.enabled i o s.1
  exec i o s := ((M.exec i o s.1).1, (M.exec i o s.1).2, (M.exec i o s.1).2 :: s.2)

/-- What `M'` does is what `M` does, as far as `view` shows it. -/
structure Over (M' M : Machine S) where
  view : M'.State → M.State
  enabled : ∀ i o s, M'.enabled i o s = true → M.enabled i o (view s) = true
  ans : ∀ i o s, (M'.exec i o s).1 = (M.exec i o (view s)).1
  state : ∀ i o s, view (M'.exec i o s).2 = (M.exec i o (view s)).2

namespace Over

variable {M M' M'' : Machine S}

def remember (M : Machine S) : Over M.remember M := ⟨Prod.fst, fun _ _ _ h => h, fun _ _ _ => rfl, fun _ _ _ => rfl⟩

def restrict (M : Machine S) (g : Nat → S.Op → M.State → Bool) : Over (M.restrict g) M :=
  ⟨id, fun _ _ _ h => (Bool.and_eq_true_iff.mp h).1, fun _ _ _ => rfl, fun _ _ _ => rfl⟩

def trans (V' : Over M'' M') (V : Over M' M) : Over M'' M where
  view s := V.view (V'.view s)
  enabled i o s h := V.enabled i o _ (V'.enabled i o s h)
  ans i o s := (V'.ans i o s).trans (V.ans i o _)
  state i o s := by rw [V'.state, V.state]

end Over

namespace Outline

variable {M M' : Machine S} {Call α Loc : Type}

def lift (O : Outline M Call α Loc) (V : Over M' M) : Outline M' Call α Loc where
  toProtocol := O.toProtocol
  post := O.post
  inv s ls := O.inv (V.view s) ls
  belongs := O.belongs

theorem lift_sound {O : Outline M Call α Loc} {code : Call → Prog S α} (V : Over M' M) (hO : O.Sound code) : (O.lift V).Sound code where
  start := by
    intro s ls i c h hi
    exact hO.start c h hi
  exec := by
    intro s ls i l o h hl hcan hen
    obtain ⟨l', hs, hinv, hb⟩ := hO.exec o h hl hcan (V.enabled i o s hen)
    refine ⟨l', ?_, ?_, hb⟩
    · rw [V.ans]
      exact hs
    · show O.inv (V.view _) _
      rw [V.state]
      exact hinv

end Outline

end CivicPulse.Lang
