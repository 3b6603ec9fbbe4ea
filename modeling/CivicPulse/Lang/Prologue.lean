/-
  CivicPulse.Lang.Prologue — calls that are checked before they are served.

  A front is a program for each outer call that ends in a reply of its own or in an inner
  call; the inner call's program then runs, and the way it ends is made the reply.
  - `fronted_sound`: if the inner programs' outline is sound and the front performs only
    operations that do not disturb its invariant, the outline carries over. A thread enters
    the inner outline when its front has ended.
  - `follows_exits`, `exits_eq`: a program whose ends are made replies keeps to what it kept.
-/

import CivicPulse.Lang.Pool

namespace CivicPulse.Lang

open Function (update)

variable {S : Sig} {α β Loc : Type}

/-! ## Both ways to end -/

namespace Prog

/-- Whatever the program ends with is made an answer. -/
def exits (f : Except S.Exc α → β) : Prog S α → Prog S β
  | .ret a => .ret (f (.ok a))
  | .raise e => .ret (f (.error e))
  | .op o k => .op o fun r => (k r).exits f

theorem exits_eq (f : Except S.Exc α → β) (p : Prog S α) :
    tryCatch ((fun a => f (.ok a)) <$> p) (fun e => .ret (f (.error e))) = p.exits f := by
  induction p with
  | ret a => rfl
  | raise e => rfl
  | op o k ih => exact congrArg (Prog.op o) (funext ih)

theorem uses_exits {A : S.Op → Prop} (f : Except S.Exc α → β) {p : Prog S α} (h : p.Uses A) : (p.exits f).Uses A := by
  induction p with
  | ret a => trivial
  | raise e => trivial
  | op o k ih => exact ⟨h.1, fun r => ih r (h.2 r)⟩

end Prog

theorem follows_exits {T : Protocol S Loc} {Q : Loc → Except S.Exc α → Prop} {p : Prog S α} {l : Loc} (f : Except S.Exc α → β)
    (h : Follows T Q l p) : Follows T (fun l r => ∃ x, Q l x ∧ r = .ok (f x)) l (p.exits f) := by
  induction p generalizing l with
  | ret a => exact ⟨_, h, rfl⟩
  | raise e => exact ⟨_, h, rfl⟩
  | op o k ih => exact ⟨h.1, fun r l' hs => ih r (h.2 r l' hs)⟩

/-! ## Every way to end -/

/-- Every way the program can end, on answers that `G` allows. -/
def Lets (G : (o : S.Op) → S.Ans o → Prop) (W : Except S.Exc α → Prop) : Prog S α → Prop
  | .ret x => W (.ok x)
  | .raise e => W (.error e)
  | .op o k => ∀ r, G o r → Lets G W (k r)

namespace Lets

variable {G : (o : S.Op) → S.Ans o → Prop} {W : Except S.Exc α → Prop} {W' : Except S.Exc β → Prop}

theorem bind {p : Prog S α} {f : α → Prog S β} (h : Lets G (fun r => match r with
      | .ok a => Lets G W' (f a)
      | .error e => W' (.error e)) p) : Lets G W' (p >>= f) := by
  induction p with
  | ret a => exact h
  | raise e => exact h
  | op o k ih => exact fun r hr => ih r (h r hr)

theorem tryCatch {p : Prog S α} {g : S.Exc → Prog S α} (h : Lets G (fun r => match r with
      | .ok a => W (.ok a)
      | .error e => Lets G W (g e)) p) : Lets G W (tryCatch p g) := by
  induction p with
  | ret a => exact h
  | raise e => exact h
  | op o k ih => exact fun r hr => ih r (h r hr)

theorem always (hW : ∀ r, W r) (p : Prog S α) : Lets G W p := by
  induction p with
  | ret a => exact hW _
  | raise e => exact hW _
  | op o k ih => exact fun r _ => ih r

theorem mono {V : Except S.Exc α → Prop} (hW : ∀ r, W r → V r) {p : Prog S α} (h : Lets G W p) : Lets G V p := by
  induction p with
  | ret a => exact hW _ h
  | raise e => exact hW _ h
  | op o k ih => exact fun r hr => ih r (h r hr)

theorem exits {f : Except S.Exc α → β} {p : Prog S α} (h : Lets G W p) : Lets G (fun r => ∃ x, W x ∧ r = .ok (f x)) (p.exits f) := by
  induction p with
  | ret a => exact ⟨_, h, rfl⟩
  | raise e => exact ⟨_, h, rfl⟩
  | op o k ih => exact fun r hr => ih r (h r hr)

/-- A program that stays where it is ends there, in one of its ways. -/
theorem follows {T : Protocol S Loc} {l : Loc} {A : S.Op → Prop} (hc : ∀ o, A o → T.can l o)
    (hs : ∀ o, A o → ∀ r l', T.step l o r l' → G o r ∧ l' = l) {p : Prog S α} (hA : p.Uses A) (h : Lets G W p) :
    Follows T (fun l' r => l' = l ∧ W r) l p := by
  induction p with
  | ret a => exact ⟨rfl, h⟩
  | raise e => exact ⟨rfl, h⟩
  | op o k ih =>
    refine ⟨hc o hA.1, fun r l' hr => ?_⟩
    obtain ⟨hG, rfl⟩ := hs o hA.1 r l' hr
    exact ih r (hA.2 r) (h r hG)

end Lets

/-! ## Fronts -/

variable {M : Machine S} {Call Call' : Type}

/-- The front, then the call it lets through. -/
def fronted (pre : Call' → Prog S (β ⊕ Call)) (code : Call → Prog S α) (f : Call' → Except S.Exc α → β) (c : Call') : Prog S β :=
  pre c >>= Sum.elim .ret fun d => (code d).exits (f c)

/-- Where a thread is: in its front, or serving the call that was let through. -/
inductive Stage (S : Sig) (β Call Loc : Type) where
  | outside (p : Prog S (β ⊕ Call))
  | inside (d : Call) (l : Loc)

namespace Stage

def admitted : Stage S β Call Loc → Option Loc
  | outside _ => none
  | inside _ l => some l

end Stage

/-- The local states of those that are let in. -/
def admitted (ss : Nat → Option (Stage S β Call Loc)) : Nat → Option Loc := fun i => (ss i).bind Stage.admitted

section

variable {ss : Nat → Option (Stage S β Call Loc)} {i : Nat}

theorem admitted_outside {p : Prog S (β ⊕ Call)} (h : ss i = some (.outside p)) : admitted ss i = none := by
  rw [admitted, h]
  rfl

theorem admitted_inside {d : Call} {l : Loc} (h : ss i = some (.inside d l)) : admitted ss i = some l := by
  rw [admitted, h]
  rfl

theorem admitted_idle (h : ss i = none) : admitted ss i = none := by
  rw [admitted, h]
  rfl

theorem admitted_enter (ss : Nat → Option (Stage S β Call Loc)) (i : Nat) (d : Call) (l : Loc) :
    admitted (update ss i (some (.inside d l))) = update (admitted ss) i (some l) := by
  funext j
  by_cases h : j = i
  · subst h
    rw [admitted, Function.update_self, Function.update_self]
    rfl
  · rw [admitted, Function.update_of_ne h, Function.update_of_ne h]
    rfl

theorem admitted_stay (h : admitted ss i = none) (p : Prog S (β ⊕ Call)) : admitted (update ss i (some (.outside p))) = admitted ss := by
  funext j
  by_cases e : j = i
  · subst e
    rw [h, admitted, Function.update_self]
    rfl
  · rw [admitted, Function.update_of_ne e]
    rfl

end

namespace Outline

variable (O : Outline M Call α Loc) (code : Call → Prog S α) (N : S.Op → Prop) (G : (o : S.Op) → S.Ans o → Prop)
  (W : Call' → Except S.Exc (β ⊕ Call) → Prop) (f : Call' → Except S.Exc α → β)

/-- Where a front stands after an operation. -/
def Enters (q : Prog S (β ⊕ Call)) (st : Stage S β Call Loc) : Prop :=
  match q with
  | .ret (.inr d) => ∃ l, O.belongs d l ∧ Follows O.toProtocol (O.post d) l (code d) ∧ st = .inside d l
  | q => st = .outside q

/-- The outline of the calls behind their fronts. -/
def behind : Outline M Call' β (Stage S β Call Loc) where
  can
    | .outside p, o => N o ∧ ∃ k, p = .op o k
    | .inside _ l, o => O.can l o
  step
    | .outside p, o, r, st => ∃ k, p = .op o k ∧ O.Enters code (k r) st
    | .inside d l, o, r, st => ∃ l', O.step l o r l' ∧ st = .inside d l'
  post c st r :=
    match st with
    | .outside p => (∃ b, p = .ret (.inl b) ∧ r = .ok b) ∨ ∃ e, p = .raise e ∧ r = .error e
    | .inside d l => ∃ x, O.post d l x ∧ r = .ok (f c x)
  inv s ss := O.inv s (admitted ss)
  belongs c st :=
    match st with
    | .outside p => Lets G (W c) p
    | .inside d l => W c (.ok (.inr d)) ∧ O.belongs d l

variable {O code N G W f}

theorem follows_inside {c : Call'} {d : Call} {l : Loc} {p : Prog S β} {Q : Loc → Except S.Exc β → Prop}
    (hQ : ∀ l r, Q l r → ∃ x, O.post d l x ∧ r = .ok (f c x)) (h : Follows O.toProtocol Q l p) :
    Follows (O.behind code N G W f).toProtocol ((O.behind code N G W f).post c) (.inside d l) p := by
  induction p generalizing l with
  | ret a => exact hQ l _ h
  | raise e => exact hQ l _ h
  | op o k ih =>
    refine ⟨h.1, fun r st hs => ?_⟩
    obtain ⟨l', hl, rfl⟩ := hs
    exact ih r (h.2 r l' hl)

/-- A front and what comes after it, from where the front stands. -/
theorem follows_front (c : Call') {q : Prog S (β ⊕ Call)} (hq : q.Uses N) {st : Stage S β Call Loc} (hst : O.Enters code q st) :
    Follows (O.behind code N G W f).toProtocol ((O.behind code N G W f).post c) st
      (q >>= Sum.elim .ret fun d => (code d).exits (f c)) := by
  induction q generalizing st with
  | ret x =>
    rcases x with b | d
    · obtain rfl : st = .outside (.ret (.inl b)) := hst
      exact .inl ⟨b, rfl, rfl⟩
    · obtain ⟨l, -, hf, rfl⟩ := hst
      exact follows_inside (fun _ _ h => h) (follows_exits (f c) hf)
  | raise e =>
    obtain rfl : st = .outside (.raise e) := hst
    exact .inr ⟨e, rfl, rfl⟩
  | op o k ih =>
    obtain rfl : st = .outside (.op o k) := hst
    refine ⟨⟨hq.1, k, rfl⟩, fun r st' hs => ?_⟩
    obtain ⟨k', hk, hst'⟩ := hs
    cases hk
    exact ih r (hq.2 r) hst'

/-- From where its front stands, a thread is outside, or enters. -/
theorem enter (hO : O.Sound code) {s : M.State} {ss : Nat → Option (Stage S β Call Loc)} {i : Nat} (hi : admitted ss i = none)
    (hinv : O.inv s (admitted ss)) (c : Call') {q : Prog S (β ⊕ Call)} (hq : Lets G (W c) q) :
    ∃ st, O.Enters code q st ∧ (O.behind code N G W f).inv s (update ss i (some st)) ∧ (O.behind code N G W f).belongs c st := by
  have stay : Lets G (W c) q → ∃ st, st = .outside q ∧ (O.behind code N G W f).inv s (update ss i (some st)) ∧
      (O.behind code N G W f).belongs c st := by
    intro hq
    refine ⟨_, rfl, ?_, hq⟩
    show O.inv s (admitted _)
    rw [admitted_stay hi]
    exact hinv
  match q, hq, stay with
  | .ret (.inl b), hq, stay => exact stay hq
  | .raise e, hq, stay => exact stay hq
  | .op o k, hq, stay => exact stay hq
  | .ret (.inr d), hq, _ =>
    obtain ⟨l, hl, hb, hf⟩ := hO.start d hinv hi
    refine ⟨.inside d l, ⟨l, hb, hf, rfl⟩, ?_, hq, hb⟩
    show O.inv s (admitted _)
    rw [admitted_enter]
    exact hl

theorem fronted_sound (hO : O.Sound code) {pre : Call' → Prog S (β ⊕ Call)} (hpre : ∀ c, (pre c).Uses N)
    (hG : ∀ {i s} (o : S.Op), N o → G o (M.exec i o s).1) (hW : ∀ c, Lets G (W c) (pre c))
    (hN : ∀ {s ls i} (o : S.Op), N o → O.inv s ls → ls i = none → O.inv (M.exec i o s).2 ls) :
    (O.behind code N G W f).Sound (fronted pre code f) where
  start := by
    intro s ss i c h hi
    obtain ⟨st, hst, hinv, hb⟩ := enter (N := N) (f := f) hO (admitted_idle hi) h c (hW c)
    exact ⟨st, hinv, hb, follows_front c (hpre c) hst⟩
  exec := by
    intro s ss i st o h hi hcan hen
    cases st with
    | outside p =>
      obtain ⟨hNo, k, rfl⟩ := hcan
      have hidle : admitted ss i = none := admitted_outside hi
      have hinv := hN o hNo h hidle
      by_cases hd : ∃ d, k (M.exec i o s).1 = .ret (.inr d)
      · obtain ⟨d, hd⟩ := hd
        obtain ⟨l, hl, hb, hf⟩ := hO.start d hinv hidle
        refine ⟨.inside d l, ⟨k, rfl, ?_⟩, ?_, fun c hc => ⟨?_, hb⟩⟩
        · rw [hd]
          exact ⟨l, hb, hf, rfl⟩
        · show O.inv _ (admitted _)
          rw [admitted_enter]
          exact hl
        · have : Lets G (W c) (k (M.exec i o s).1) := hc _ (hG o hNo)
          rw [hd] at this
          exact this
      · refine ⟨.outside (k (M.exec i o s).1), ⟨k, rfl, ?_⟩, ?_, fun c hc => hc _ (hG o hNo)⟩
        · match hk : k (M.exec i o s).1 with
          | .ret (.inl b) => rfl
          | .raise e => rfl
          | .op o' k' => rfl
          | .ret (.inr d) => exact absurd ⟨d, hk⟩ hd
        · show O.inv _ (admitted _)
          rw [admitted_stay hidle]
          exact hinv
    | inside d l =>
      obtain ⟨l', hs, hinv, hb⟩ := hO.exec o h (admitted_inside hi) hcan hen
      refine ⟨.inside d l', ⟨l', hs, rfl⟩, ?_, fun c hc => ⟨hc.1, hb d hc.2⟩⟩
      show O.inv _ (admitted _)
      rw [admitted_enter]
      exact hinv

end Outline

end CivicPulse.Lang
