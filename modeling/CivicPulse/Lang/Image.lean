/-
  CivicPulse.Lang.Image — runs followed through a map that forgets something.

  A `View` says what is left of an operation and of its answer. The image of a program
  performs what is left of its operations and goes on with what is left of the answers.
  - `Image.bind` / `Image.tryCatch` / `image_of_uses`: a program has an image when its parts
    do; one whose operations are left as they are is its own.
  - `schedule_image`: on a machine that commutes with the view, a schedule of the images runs
    through the images of the states.
  - `same_image`: schedules with one image end in states with one image.
-/

import CivicPulse.Lang.Pool

namespace CivicPulse.Lang

open Function (update)

variable {S : Sig}

/-- What is left of an operation, and of its answer. -/
structure View (S : Sig) where
  op : S.Op → S.Op
  ans : (o : S.Op) → S.Ans o → S.Ans (op o)

namespace View

variable (V : View S)

/-- Nothing is forgotten. -/
def Fixes (o : S.Op) : Prop := ∃ h : V.op o = o, ∀ r, h ▸ V.ans o r = r

end View

variable {V : View S} {α β γ δ : Type}

/-- `q` does what is left of what `p` does; `f` is what is left of its value. -/
def Image (V : View S) (f : α → β) : Prog S α → Prog S β → Prop
  | .ret a, q => q = .ret (f a)
  | .raise e, q => q = .raise e
  | .op o k, q => ∃ k', q = .op (V.op o) k' ∧ ∀ r, Image V f (k r) (k' (V.ans o r))

namespace Image

theorem bind {f : α → β} {g : γ → δ} {p : Prog S α} {q : Prog S β} {h : α → Prog S γ} {h' : β → Prog S δ} (hp : Image V f p q)
    (hh : ∀ a, Image V g (h a) (h' (f a))) : Image V g (p >>= h) (q >>= h') := by
  induction p generalizing q with
  | ret a =>
    obtain rfl : q = .ret (f a) := hp
    exact hh a
  | raise e =>
    obtain rfl : q = .raise e := hp
    rfl
  | op o k ih =>
    obtain ⟨k', rfl, hk⟩ := hp
    exact ⟨fun r => k' r >>= h', rfl, fun r => ih r (hk r)⟩

theorem tryCatch {f : α → β} {p : Prog S α} {q : Prog S β} {h : S.Exc → Prog S α} {h' : S.Exc → Prog S β} (hp : Image V f p q)
    (hh : ∀ e, Image V f (h e) (h' e)) : Image V f (tryCatch p h) (tryCatch q h') := by
  induction p generalizing q with
  | ret a =>
    obtain rfl : q = .ret (f a) := hp
    rfl
  | raise e =>
    obtain rfl : q = .raise e := hp
    exact hh e
  | op o k ih =>
    obtain ⟨k', rfl, hk⟩ := hp
    exact ⟨fun r => (k' r).handle h', rfl, fun r => ih r (hk r)⟩

end Image

theorem op_cast {o o' : S.Op} (h : o' = o) (k : S.Ans o → Prog S α) : Prog.op o k = Prog.op o' fun r => k (h ▸ r) := by
  subst h
  rfl

theorem image_of_uses {p : Prog S α} (h : p.Uses V.Fixes) : Image V id p p := by
  induction p with
  | ret a => rfl
  | raise e => rfl
  | op o k ih =>
    obtain ⟨⟨ho, hr⟩, hk⟩ := h
    refine ⟨fun r => k (ho ▸ r), op_cast ho k, fun r => ?_⟩
    · show Image V id (k r) (k (ho ▸ V.ans o r))
      rw [hr]
      exact ih r (hk r)

/-! ## Machines -/

/-- The machine does to the image of a state what is left of what it does to the state, as
    long as `ok` holds; it does not come back once it is lost. -/
structure Commutes (V : View S) (M : Machine S) (φ : M.State → M.State) (ok : M.State → Prop) : Prop where
  enabled : ∀ i o s, M.enabled i (V.op o) (φ s) = M.enabled i o s
  exec : ∀ i o s, ok (M.exec i o s).2 → M.exec i (V.op o) (φ s) = (V.ans o (M.exec i o s).1, φ (M.exec i o s).2)
  back : ∀ i o s, ok (M.exec i o s).2 → ok s

namespace Pool

variable {M : Machine S} {Call : Type} {code : Call → Prog S α} {φ : M.State → M.State} {ok : M.State → Prop} {g : Call → Call}
  {f : α → α} {P Q : Pool M Call α}

/-- `Q` is the image of `P`. -/
structure IsImage (V : View S) (f : α → α) (φ : M.State → M.State) (g : Call → Call) (P Q : Pool M Call α) : Prop where
  shared : Q.shared = φ P.shared
  idle : ∀ i, P.threads i = none → Q.threads i = none
  busy : ∀ i t, P.threads i = some t → ∃ q, Q.threads i = some ⟨g t.call, q⟩ ∧ Image V f t.prog q

/-- The instruction for what is left of a call. -/
def Act.map (g : Call → Call) : Act Call → Act Call
  | .start i c => .start i (g c)
  | .exec i => .exec i

theorem isImage_update {s s' : M.State} {i : Nat} {t : Thread S Call α} {q : Prog S α} (h : IsImage V f φ g P Q) (hs : s' = φ s)
    (hq : Image V f t.prog q) :
    IsImage V f φ g ⟨s, update P.threads i (some t)⟩ ⟨s', update Q.threads i (some ⟨g t.call, q⟩)⟩ := by
  refine ⟨hs, fun j hj => ?_, fun j u hu => ?_⟩
  · by_cases e : j = i
    · subst e
      simp at hj
    · simp only [Function.update_of_ne e] at hj ⊢
      exact h.idle j hj
  · by_cases e : j = i
    · subst e
      simp only [Function.update_self, Option.some.injEq] at hu
      subst hu
      exact ⟨q, Function.update_self .., hq⟩
    · simp only [Function.update_of_ne e] at hu ⊢
      exact h.busy j u hu

theorem act_image (hM : Commutes V M φ ok) (hcode : ∀ c, Image V f (code c) (code (g c))) (h : IsImage V f φ g P Q) (a : Act Call)
    (hok : ok (act code P a).shared) : IsImage V f φ g (act code P a) (act code Q (a.map g)) := by
  cases a with
  | start i c =>
    rcases ht : P.threads i with _ | t
    · simp only [act, Act.map, ht, h.idle i ht]
      exact isImage_update h h.shared (hcode c)
    · obtain ⟨q, hq, -⟩ := h.busy i t ht
      simp only [act, Act.map, ht, hq]
      exact h
  | exec i =>
    rcases ht : P.threads i with _ | ⟨c, p⟩
    · simp only [act, Act.map, ht, h.idle i ht]
      exact h
    · obtain ⟨q, hq, himage⟩ := h.busy i _ ht
      cases p with
      | ret a =>
        obtain rfl : q = .ret (f a) := himage
        simp only [act, Act.map, ht, hq]
        exact h
      | raise e =>
        obtain rfl : q = .raise e := himage
        simp only [act, Act.map, ht, hq]
        exact h
      | op o k =>
        obtain ⟨k', rfl, hk⟩ := himage
        simp only [act, ht] at hok
        simp only [act, Act.map, ht, hq, h.shared, hM.enabled]
        split
        · rename_i he
          rw [if_pos he] at hok
          rw [hM.exec i o P.shared hok]
          exact isImage_update h rfl (hk _)
        · exact h

theorem ok_back (hM : Commutes V M φ ok) {P P' : Pool M Call α} (hs : Steps code P P') : ok P'.shared → ok P.shared :=
  steps_shared (R := fun s s' => ok s' → ok s) (fun _ => id) (fun _ _ _ h h' hok => h (h' hok)) hM.back hs

theorem schedule_image (hM : Commutes V M φ ok) (hcode : ∀ c, Image V f (code c) (code (g c))) (as : List (Act Call))
    (h : IsImage V f φ g P Q) (hok : ok (schedule code as P).shared) :
    IsImage V f φ g (schedule code as P) (schedule code (as.map (Act.map g)) Q) := by
  induction as generalizing P Q with
  | nil => exact h
  | cons a as ih => exact ih (act_image hM hcode h a (ok_back hM (schedule_steps code as _) hok)) hok

/-- Two schedules that differ in what is forgotten only. -/
theorem same_image (hM : Commutes V M φ ok) (hcode : ∀ c, Image V f (code c) (code (g c))) {s s' : M.State} (hs : φ s = φ s')
    {as as' : List (Act Call)} (has : as.map (Act.map g) = as'.map (Act.map g)) (hok : ok (schedule code as (fresh s)).shared)
    (hok' : ok (schedule code as' (fresh s')).shared) :
    φ (schedule code as (fresh s)).shared = φ (schedule code as' (fresh s')).shared ∧
      ∀ i, ((schedule code as (fresh s)).result i).map f = ((schedule code as' (fresh s')).result i).map f := by
  have hfresh : ∀ s, IsImage V f φ g (fresh s : Pool M Call α) (fresh (φ s)) := fun _ => ⟨rfl, fun _ _ => rfl, fun _ _ h => by cases h⟩
  have h := schedule_image hM hcode as (hfresh s) hok
  have h' := schedule_image hM hcode as' (hfresh s') hok'
  rw [← has, ← hs] at h'
  have hresult : ∀ {P Q : Pool M Call α}, IsImage V f φ g P Q → ∀ i, Q.result i = (P.result i).map f := by
    intro P Q h i
    rcases ht : P.threads i with _ | ⟨c, p⟩
    · rw [result, result, ht, h.idle i ht]
      rfl
    · obtain ⟨q, hq, himage⟩ := h.busy i _ ht
      rw [result, result, ht, hq]
      cases p with
      | ret a =>
        obtain rfl : q = .ret (f a) := himage
        rfl
      | raise e =>
        obtain rfl : q = .raise e := himage
        rfl
      | op o k =>
        obtain ⟨k', rfl, -⟩ := himage
        rfl
  exact ⟨h.shared.symm.trans h'.shared, fun i => (hresult h i).symm.trans (hresult h' i)⟩

end Pool

end CivicPulse.Lang
