/-
  CivicPulse.Lang.Prog — straight-line code that talks to the outside world.

  A program returns a value, raises an exception, or performs one operation and
  goes on with its answer. A `Sig` names the operations, the type of each one's
  answer, and the exceptions. Programs are a lawful monad with `try … catch`, so a
  method is transcribed with `do` in the order in which it performs its operations.

  A `Machine` gives the operations their meaning on a shared state. `run` lets one
  thread run alone:
  - `run_bind` / `run_tryCatch`: running follows sequencing and handlers.
  - `uses_bind` / `uses_tryCatch`: which operations a program can perform is read off
    its parts, whatever they answer.
-/

import Mathlib.Logic.Relation

namespace CivicPulse.Lang

/-- The operations a program may perform, what each answers, and what it may raise. -/
structure Sig where
  Op : Type
  Ans : Op → Type
  Exc : Type

inductive Prog (S : Sig) (α : Type) : Type where
  | ret (a : α)
  | raise (e : S.Exc)
  | op (o : S.Op) (k : S.Ans o → Prog S α)

namespace Prog

variable {S : Sig} {α β γ : Type}

/-- One operation, returning its answer. -/
def perform (o : S.Op) : Prog S (S.Ans o) := .op o .ret

protected def bind : Prog S α → (α → Prog S β) → Prog S β
  | .ret a, f => f a
  | .raise e, _ => .raise e
  | .op o k, f => .op o fun r => (k r).bind f

/-- Only the protected part's exceptions reach the handler. -/
def handle : Prog S α → (S.Exc → Prog S α) → Prog S α
  | .ret a, _ => .ret a
  | .raise e, h => h e
  | .op o k, h => .op o fun r => (k r).handle h

instance : Monad (Prog S) where
  pure := .ret
  bind := Prog.bind

instance : MonadExceptOf S.Exc (Prog S) where
  throw := .raise
  tryCatch := handle

/-- `try p finally f`: `f` runs on both exits and then the exit goes on. -/
def finally_ (p : Prog S α) (f : Prog S Unit) : Prog S α := do
  let a ← tryCatch p fun e => do f; throw e
  f
  return a

/-! ## Equations -/

@[simp] theorem pure_eq (a : α) : (pure a : Prog S α) = .ret a := rfl
@[simp] theorem throw_eq (e : S.Exc) : (throw e : Prog S α) = .raise e := rfl
@[simp] theorem ret_bind (a : α) (f : α → Prog S β) : (Prog.ret a >>= f) = f a := rfl
@[simp] theorem raise_bind (e : S.Exc) (f : α → Prog S β) : (Prog.raise e >>= f) = .raise e := rfl

@[simp] theorem op_bind (o : S.Op) (k : S.Ans o → Prog S α) (f : α → Prog S β) :
    (Prog.op o k >>= f) = .op o fun r => k r >>= f := rfl

@[simp] theorem perform_bind (o : S.Op) (f : S.Ans o → Prog S β) : (perform o >>= f) = .op o f := rfl

@[simp] theorem tryCatch_ret (a : α) (h : S.Exc → Prog S α) : tryCatch (Prog.ret a) h = .ret a := rfl
@[simp] theorem tryCatch_raise (e : S.Exc) (h : S.Exc → Prog S α) : tryCatch (Prog.raise e) h = h e := rfl

@[simp] theorem tryCatch_op (o : S.Op) (k : S.Ans o → Prog S α) (h : S.Exc → Prog S α) :
    tryCatch (Prog.op o k) h = .op o fun r => tryCatch (k r) h := rfl

theorem bind_ret (p : Prog S α) : (p >>= Prog.ret) = p := by
  induction p with
  | ret a => rfl
  | raise e => rfl
  | op o k ih => exact congrArg (Prog.op o) (funext ih)

theorem bind_assoc (p : Prog S α) (f : α → Prog S β) (g : β → Prog S γ) :
    (p >>= f >>= g) = p >>= fun a => f a >>= g := by
  induction p with
  | ret a => rfl
  | raise e => rfl
  | op o k ih => exact congrArg (Prog.op o) (funext ih)

instance : LawfulMonad (Prog S) := LawfulMonad.mk' (Prog S) (fun p => bind_ret p) (fun _ _ => rfl) bind_assoc

@[simp] theorem map_ret (f : α → β) (a : α) : (f <$> Prog.ret a : Prog S β) = .ret (f a) := rfl
@[simp] theorem map_raise (f : α → β) (e : S.Exc) : (f <$> Prog.raise e : Prog S β) = .raise e := rfl

@[simp] theorem map_op (f : α → β) (o : S.Op) (k : S.Ans o → Prog S α) :
    (f <$> Prog.op o k) = .op o fun r => f <$> k r := rfl

/-! ## What a program can perform -/

/-- Every operation the program can perform, whatever is answered on the way, is one
    of `A`. -/
def Uses (A : S.Op → Prop) : Prog S α → Prop
  | .ret _ => True
  | .raise _ => True
  | .op o k => A o ∧ ∀ r, (k r).Uses A

variable {A : S.Op → Prop}

theorem uses_bind {p : Prog S α} {f : α → Prog S β} (hp : p.Uses A) (hf : ∀ a, (f a).Uses A) :
    (p >>= f).Uses A := by
  induction p with
  | ret a => exact hf a
  | raise e => trivial
  | op o k ih => exact ⟨hp.1, fun r => ih r (hp.2 r)⟩

theorem uses_tryCatch {p : Prog S α} {h : S.Exc → Prog S α} (hp : p.Uses A) (hh : ∀ e, (h e).Uses A) :
    (tryCatch p h).Uses A := by
  induction p with
  | ret a => trivial
  | raise e => exact hh e
  | op o k ih => exact ⟨hp.1, fun r => ih r (hp.2 r)⟩

theorem uses_mono {B : S.Op → Prop} (hAB : ∀ o, A o → B o) {p : Prog S α} (hp : p.Uses A) : p.Uses B := by
  induction p with
  | ret a => trivial
  | raise e => trivial
  | op o k ih => exact ⟨hAB o hp.1, fun r => ih r (hp.2 r)⟩

end Prog

/-! ## Machines -/

/-- What the operations do to a shared state; `enabled` says when one need not wait. -/
structure Machine (S : Sig) where
  State : Type
  enabled : Nat → S.Op → State → Bool
  exec : Nat → (o : S.Op) → State → S.Ans o × State

/-- The same machine, scheduled only where `g` allows. -/
def Machine.restrict {S : Sig} (M : Machine S) (g : Nat → S.Op → M.State → Bool) : Machine S :=
  { M with enabled := fun i o s => M.enabled i o s && g i o s }

namespace Prog

variable {S : Sig} {α β : Type} (M : Machine S) (i : Nat)

/-- Thread `i` runs the program with nobody in between. -/
def run : Prog S α → M.State → Except S.Exc α × M.State
  | .ret a, s => (.ok a, s)
  | .raise e, s => (.error e, s)
  | .op o k, s => (k (M.exec i o s).1).run (M.exec i o s).2

@[simp] theorem run_ret (a : α) (s : M.State) : (Prog.ret a : Prog S α).run M i s = (.ok a, s) := rfl
@[simp] theorem run_raise (e : S.Exc) (s : M.State) : (Prog.raise e : Prog S α).run M i s = (.error e, s) := rfl

@[simp] theorem run_op (o : S.Op) (k : S.Ans o → Prog S α) (s : M.State) :
    (Prog.op o k).run M i s = (k (M.exec i o s).1).run M i (M.exec i o s).2 := rfl

theorem run_bind (p : Prog S α) (f : α → Prog S β) (s : M.State) :
    (p >>= f).run M i s = match p.run M i s with
      | (.ok a, s') => (f a).run M i s'
      | (.error e, s') => (.error e, s') := by
  induction p generalizing s with
  | ret a => rfl
  | raise e => rfl
  | op o k ih => exact ih _ _

theorem run_map (f : α → β) (p : Prog S α) (s : M.State) : (f <$> p).run M i s = ((p.run M i s).1.map f, (p.run M i s).2) := by
  rw [map_eq_pure_bind, run_bind]
  rcases p.run M i s with ⟨_ | _, _⟩ <;> rfl

theorem run_tryCatch (p : Prog S α) (h : S.Exc → Prog S α) (s : M.State) :
    (tryCatch p h).run M i s = match p.run M i s with
      | (.ok a, s') => (.ok a, s')
      | (.error e, s') => (h e).run M i s' := by
  induction p generalizing s with
  | ret a => rfl
  | raise e => rfl
  | op o k ih => exact ih _ _

end Prog

end CivicPulse.Lang
