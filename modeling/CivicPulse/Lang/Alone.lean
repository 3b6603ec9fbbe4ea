/-
  CivicPulse.Lang.Alone — pre- and postconditions of a program that runs alone.

  `wp M i p Q s`: run by thread `i` from `s` with nobody in between, `p` ends in a result
  and a state that satisfy `Q`. Every program ends, so `wp` is both what must and what can
  happen.
  - `wp_bind` / `wp_tryCatch` / `wp_finally`: a program's condition from its parts'.
  - `wp_mono` / `wp_and`: consequence and conjunction.
  - `wp_always` / `wp_uses`: what every operation, or every one of a set, keeps of the state,
    a program keeps.
-/

import CivicPulse.Lang.Prog

namespace CivicPulse.Lang

open Prog

variable {S : Sig} {α β : Type} {M : Machine S} {i : Nat}

/-- A condition on how a run ends. -/
abbrev Post (M : Machine S) (α : Type) := Except S.Exc α → M.State → Prop

def wp (M : Machine S) (i : Nat) (p : Prog S α) (Q : Post M α) (s : M.State) : Prop :=
  Q (p.run M i s).1 (p.run M i s).2

/-- What is asked where `f` takes over a returned value. -/
def Post.bind (f : α → Prog S β) (i : Nat) (Q : Post M β) : Post M α
  | .ok a, s => wp M i (f a) Q s
  | .error e, s => Q (.error e) s

/-- What is asked where `h` takes over an exception. -/
def Post.handle (h : S.Exc → Prog S α) (i : Nat) (Q : Post M α) : Post M α
  | .ok a, s => Q (.ok a) s
  | .error e, s => wp M i (h e) Q s

variable {Q Q' : Post M α} {s : M.State}

@[simp] theorem wp_ret {a : α} : wp M i (.ret a) Q s ↔ Q (.ok a) s := Iff.rfl
@[simp] theorem wp_raise {e : S.Exc} : wp M i (.raise e) Q s ↔ Q (.error e) s := Iff.rfl

@[simp] theorem wp_op {o : S.Op} {k : S.Ans o → Prog S α} :
    wp M i (.op o k) Q s ↔ wp M i (k (M.exec i o s).1) Q (M.exec i o s).2 := Iff.rfl

theorem wp_bind {p : Prog S α} {f : α → Prog S β} {Q : Post M β} :
    wp M i (p >>= f) Q s ↔ wp M i p (Q.bind f i) s := by
  rw [wp, wp, run_bind]
  rcases p.run M i s with ⟨_ | _, _⟩ <;> rfl

theorem wp_map {p : Prog S α} {f : α → β} {Q : Post M β} :
    wp M i (f <$> p) Q s ↔ wp M i p (fun r => Q (r.map f)) s := by
  rw [map_eq_pure_bind, wp_bind, wp, wp]
  rcases p.run M i s with ⟨_ | _, _⟩ <;> rfl

theorem wp_tryCatch {p : Prog S α} {h : S.Exc → Prog S α} :
    wp M i (tryCatch p h) Q s ↔ wp M i p (Q.handle h i) s := by
  rw [wp, wp, run_tryCatch]
  rcases p.run M i s with ⟨_ | _, _⟩ <;> rfl

theorem wp_mono {p : Prog S α} (hQ : ∀ r s, Q r s → Q' r s) (h : wp M i p Q s) : wp M i p Q' s := hQ _ _ h

theorem wp_run (p : Prog S α) (s : M.State) : wp M i p (fun r s' => p.run M i s = (r, s')) s := rfl

theorem wp_and {p : Prog S α} (h : wp M i p Q s) (h' : wp M i p Q' s) : wp M i p (fun r s => Q r s ∧ Q' r s) s := ⟨h, h'⟩

/-- The block after `finally` runs on both exits. -/
theorem wp_finally {p : Prog S α} {f : Prog S Unit} :
    wp M i (finally_ p f) Q s ↔ wp M i p (fun r s' =>
      wp M i f (fun r' s'' => match r' with
        | .ok _ => Q r s''
        | .error e => Q (.error e) s'') s') s := by
  rw [finally_, wp_bind, wp_tryCatch, wp, wp]
  rcases p.run M i s with ⟨e | a, s'⟩
  · rw [Post.handle, wp_bind, wp, wp]
    rcases f.run M i s' with ⟨_ | _, _⟩ <;> rfl
  · rw [Post.handle, Post.bind, wp_bind, wp, wp]
    rcases f.run M i s' with ⟨_ | _, _⟩ <;> rfl

/-- What every operation keeps of the state, a program keeps. -/
theorem wp_always {R : M.State → M.State → Prop} (hrefl : ∀ s, R s s) (htrans : ∀ s s' s'', R s s' → R s' s'' → R s s'')
    (hexec : ∀ o s, R s (M.exec i o s).2) (p : Prog S α) (s : M.State) : wp M i p (fun _ s' => R s s') s := by
  induction p generalizing s with
  | ret a => exact hrefl s
  | raise e => exact hrefl s
  | op o k ih => exact wp_mono (fun _ _ h => htrans _ _ _ (hexec o s) h) (ih _ _)

/-- What every operation in `A` keeps of the state, a program of such operations keeps. -/
theorem wp_uses {A : S.Op → Prop} {R : M.State → M.State → Prop} (hrefl : ∀ s, R s s)
    (htrans : ∀ s s' s'', R s s' → R s' s'' → R s s'') (hexec : ∀ o s, A o → R s (M.exec i o s).2) {p : Prog S α}
    (hp : p.Uses A) : wp M i p (fun _ s' => R s s') s := by
  induction p generalizing s with
  | ret a => exact hrefl s
  | raise e => exact hrefl s
  | op o k ih => exact wp_mono (fun _ _ h => htrans _ _ _ (hexec o s hp.1) h) (ih _ (hp.2 _))

end CivicPulse.Lang
