/-
  CivicPulse.Lang.Product — two accounts of one program side by side.

  A program that keeps to two protocols keeps to their product. An outline gets a second
  account beside its own: each thread has a note with its local state, and an invariant ties
  the notes to the shared state.
  - `Follows.prod`: both accounts of a program.
  - `beside_sound`: what is left to show of the second account once the first is sound.
-/

import CivicPulse.Lang.Pool

namespace CivicPulse.Lang

open Function (update)

variable {S : Sig} {Loc Note α : Type}

def Protocol.prod (T : Protocol S Loc) (N : Protocol S Note) : Protocol S (Loc × Note) where
  can l o := T.can l.1 o ∧ N.can l.2 o
  step l o r l' := T.step l.1 o r l'.1 ∧ N.step l.2 o r l'.2

theorem Follows.prod {T : Protocol S Loc} {N : Protocol S Note} {Q : Loc → Except S.Exc α → Prop} {Q' : Note → Except S.Exc α → Prop}
    {p : Prog S α} {l : Loc} {n : Note} (h : Follows T Q l p) (h' : Follows N Q' n p) :
    Follows (T.prod N) (fun l r => Q l.1 r ∧ Q' l.2 r) (l, n) p := by
  induction p generalizing l n with
  | ret a => exact ⟨h, h'⟩
  | raise e => exact ⟨h, h'⟩
  | op o k ih => exact ⟨⟨h.1, h'.1⟩, fun r l' hs => ih r (h.2 r l'.1 hs.1) (h'.2 r l'.2 hs.2)⟩

/-- The local states without their notes. -/
def firsts (ls : Nat → Option (Loc × Note)) : Nat → Option Loc := fun i => (ls i).map Prod.fst

theorem firsts_some {ls : Nat → Option (Loc × Note)} {i : Nat} {l : Loc} {n : Note} (h : ls i = some (l, n)) :
    firsts ls i = some l := by
  rw [firsts, h]
  rfl

theorem firsts_none {ls : Nat → Option (Loc × Note)} {i : Nat} (h : ls i = none) : firsts ls i = none := by
  rw [firsts, h]
  rfl

theorem firsts_update (ls : Nat → Option (Loc × Note)) (i : Nat) (l : Loc) (n : Note) :
    firsts (update ls i (some (l, n))) = update (firsts ls) i (some l) := by
  funext j
  by_cases h : j = i
  · subst h
    rw [firsts, Function.update_self, Function.update_self]
    rfl
  · rw [firsts, Function.update_of_ne h, Function.update_of_ne h]
    rfl

namespace Outline

variable {M : Machine S} {Call : Type}

/-- The outline with a second account. -/
def beside (O : Outline M Call α Loc) (N : Protocol S Note) (post : Call → Note → Except S.Exc α → Prop)
    (inv : M.State → (Nat → Option (Loc × Note)) → Prop) : Outline M Call α (Loc × Note) where
  toProtocol := O.toProtocol.prod N
  post c l r := O.post c l.1 r ∧ post c l.2 r
  inv s ls := O.inv s (firsts ls) ∧ inv s ls
  belongs c l := O.belongs c l.1

variable {O : Outline M Call α Loc} {N : Protocol S Note} {post : Call → Note → Except S.Exc α → Prop}
  {inv : M.State → (Nat → Option (Loc × Note)) → Prop} {code : Call → Prog S α}

theorem beside_sound (hO : O.Sound code) (begun : Call → Note) (hfollows : ∀ c, Follows N (post c) (begun c) (code c))
    (hstart : ∀ {s ls i} (c : Call), O.inv s (firsts ls) → inv s ls → ls i = none → ∃ l, O.inv s (update (firsts ls) i (some l)) ∧
      O.belongs c l ∧ Follows O.toProtocol (O.post c) l (code c) ∧ inv s (update ls i (some (l, begun c))))
    (hexec : ∀ {s ls i l n} (o : S.Op) (l' : Loc), O.inv s (firsts ls) → inv s ls → ls i = some (l, n) → O.can l o → N.can n o →
      M.enabled i o s = true → O.step l o (M.exec i o s).1 l' → O.inv (M.exec i o s).2 (update (firsts ls) i (some l')) →
      ∃ n', N.step n o (M.exec i o s).1 n' ∧ inv (M.exec i o s).2 (update ls i (some (l', n')))) :
    (O.beside N post inv).Sound code where
  start := by
    intro s ls i c h hi
    obtain ⟨l, hl, hb, hf, hinv⟩ := hstart c h.1 h.2 hi
    refine ⟨(l, begun c), ⟨?_, hinv⟩, hb, hf.prod (hfollows c)⟩
    rw [firsts_update]
    exact hl
  exec := by
    intro s ls i l o h hi hcan hen
    obtain ⟨l, n⟩ := l
    obtain ⟨l', hs, hl, hb⟩ := hO.exec o h.1 (firsts_some hi) hcan.1 hen
    obtain ⟨n', hn, hinv⟩ := hexec o l' h.1 h.2 hi hcan.1 hcan.2 hen hs hl
    refine ⟨(l', n'), ⟨hs, hn⟩, ⟨?_, hinv⟩, fun c hc => hb c hc⟩
    rw [firsts_update]
    exact hl

end Outline

end CivicPulse.Lang
