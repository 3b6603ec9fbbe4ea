/-
  CivicPulse.Lang.Pool — any number of programs interleaving on one machine.

  A pool is the machine's state and, for each thread number, the call it serves and
  what is left of its program. A thread may start at any moment with any call, and
  any started thread whose next operation is enabled may perform it: nothing is
  assumed about the order.

  Proof outlines. A `Protocol` says, for a thread in a local (ghost) state, which
  operations it may perform and how an answer moves the local state; `Follows` says a
  program keeps to it and ends as its postcondition asks. An `Outline` adds the
  invariant that ties the shared state to the local states.
  - `Outline.keeps`: if each operation keeps the invariant and each call's program
    follows the protocol, then both hold after any run.
  - `Follows.bind` / `Follows.tryCatch` / `Follows.of_uses`: a program follows the
    protocol when its parts do; one that performs only neutral operations does, and so does
    one whose operations keep an assertion that allows them (`Follows.within`).
  - `finishes`: a thread whose operations never wait runs to its end when scheduled.
  - `Outline.runs_out`: so does one whose operations an invariant keeps enabled.
  - `Outline.drain`: if there is always such a thread, all can be run to their ends.
  - `steps_uses`: what the calls' programs can perform, a started thread can; what such
    operations keep, a run keeps (`steps_keeps`).
-/

import Mathlib.Logic.Function.Basic
import CivicPulse.Lang.Prog

namespace CivicPulse.Lang

open Function (update)

/-! ## Maps by thread -/

section

variable {V : Type} {m : Nat → Option V} {i j : Nat} {u v : V}

/-- After thread `i`'s entry is written, an entry is that one, or another thread's. -/
theorem update_some (h : update m i (some v) j = some u) : j = i ∧ u = v ∨ j ≠ i ∧ m j = some u := by
  by_cases e : j = i
  · subst e
    rw [Function.update_self] at h
    exact .inl ⟨rfl, (Option.some.inj h).symm⟩
  · rw [Function.update_of_ne e] at h
    exact .inr ⟨e, h⟩

theorem update_none (h : update m i (some v) j = none) : j ≠ i ∧ m j = none := by
  by_cases e : j = i
  · subst e
    rw [Function.update_self] at h
    cases h
  · rw [Function.update_of_ne e] at h
    exact ⟨e, h⟩

end

variable {S : Sig}

structure Thread (S : Sig) (Call α : Type) where
  call : Call
  prog : Prog S α

structure Pool (M : Machine S) (Call α : Type) where
  shared : M.State
  threads : Nat → Option (Thread S Call α)

namespace Pool

variable {M : Machine S} {Call α : Type} (code : Call → Prog S α)

/-- One thread starts, or performs its next operation. -/
inductive Step : Pool M Call α → Pool M Call α → Prop
  | start (P : Pool M Call α) (i : Nat) (c : Call) : P.threads i = none →
      Step P ⟨P.shared, update P.threads i (some ⟨c, code c⟩)⟩
  | exec (P : Pool M Call α) (i : Nat) (c : Call) (o : S.Op) (k : S.Ans o → Prog S α) :
      P.threads i = some ⟨c, .op o k⟩ → M.enabled i o P.shared = true →
      Step P ⟨(M.exec i o P.shared).2, update P.threads i (some ⟨c, k (M.exec i o P.shared).1⟩)⟩

abbrev Steps : Pool M Call α → Pool M Call α → Prop := Relation.ReflTransGen (Step code)

/-- No thread has started. -/
def fresh (s : M.State) : Pool M Call α := ⟨s, fun _ => none⟩

/-- What a thread has returned. -/
def result (P : Pool M Call α) (i : Nat) : Option α :=
  match P.threads i with
  | some ⟨_, .ret a⟩ => some a
  | _ => none

theorem result_some {P : Pool M Call α} {i : Nat} {a : α} (h : P.result i = some a) :
    ∃ c, P.threads i = some ⟨c, .ret a⟩ := by
  unfold result at h
  split at h
  · rename_i c b hc
    cases h
    exact ⟨c, hc⟩
  · cases h

variable {code} in
/-- A thread serves the call it has started with. -/
theorem steps_started {P P' : Pool M Call α} (hs : Steps code P P') {i : Nat} {t : Thread S Call α} (h : P.threads i = some t) :
    ∃ p, P'.threads i = some ⟨t.call, p⟩ := by
  induction hs with
  | refl => exact ⟨t.prog, h⟩
  | tail _ hs ih =>
    obtain ⟨p, hp⟩ := ih
    cases hs with
    | start j c' hn =>
      have hne : i ≠ j := by
        intro e
        rw [← e, hp] at hn
        cases hn
      exact ⟨p, (Function.update_of_ne hne _ _).trans hp⟩
    | exec j c' o k ht he =>
      by_cases e : i = j
      · subst e
        rw [hp] at ht
        cases ht
        exact ⟨_, Function.update_self ..⟩
      · exact ⟨p, (Function.update_of_ne e _ _).trans hp⟩

end Pool

/-- Nothing is left to do. -/
def Prog.Ended : Prog S α → Prop
  | .op _ _ => False
  | _ => True

namespace Pool

variable {M : Machine S} {Call α : Type} (code : Call → Prog S α)

variable {code} in
/-- A thread that has ended stays as it is. -/
theorem steps_ended {P P' : Pool M Call α} (hs : Steps code P P') {i : Nat} {t : Thread S Call α} (h : P.threads i = some t)
    (hend : t.prog.Ended) : P'.threads i = some t := by
  induction hs with
  | refl => exact h
  | tail _ hs ih =>
    cases hs with
    | start j c hn =>
      have hne : i ≠ j := by
        intro e
        rw [← e, ih] at hn
        cases hn
      exact (Function.update_of_ne hne _ _).trans ih
    | exec j c o k ht he =>
      have hne : i ≠ j := by
        intro e
        rw [← e, ih] at ht
        cases ht
        exact hend
      exact (Function.update_of_ne hne _ _).trans ih

variable {code} in
/-- What every operation keeps of the shared state, a run keeps. -/
theorem steps_shared {R : M.State → M.State → Prop} (hrefl : ∀ s, R s s) (htrans : ∀ s s' s'', R s s' → R s' s'' → R s s'')
    (hexec : ∀ i o s, R s (M.exec i o s).2) {P P' : Pool M Call α} (hs : Steps code P P') : R P.shared P'.shared := by
  induction hs with
  | refl => exact hrefl _
  | tail _ hs ih =>
    cases hs with
    | start j c hn => exact ih
    | exec j c o k ht he => exact htrans _ _ _ ih (hexec j o _)

variable {code} in
/-- Finitely many threads have started. -/
theorem started_finite {s : M.State} {P : Pool M Call α} (hs : Steps code (fresh s) P) :
    ∃ is : List Nat, ∀ i, P.threads i ≠ none → i ∈ is := by
  induction hs with
  | refl => exact ⟨[], fun i hi => absurd rfl hi⟩
  | tail _ hs ih =>
    obtain ⟨is, his⟩ := ih
    cases hs with
    | start j c hn =>
      refine ⟨j :: is, fun i hi => ?_⟩
      by_cases e : i = j
      · exact e ▸ List.mem_cons_self
      · exact List.mem_cons_of_mem _ (his i (by simpa [Function.update_of_ne e] using hi))
    | exec j c o k ht he =>
      refine ⟨j :: is, fun i hi => ?_⟩
      by_cases e : i = j
      · exact e ▸ List.mem_cons_self
      · exact List.mem_cons_of_mem _ (his i (by simpa [Function.update_of_ne e] using hi))

/-! ## Schedules -/

inductive Act (Call : Type) where
  | start (i : Nat) (c : Call)
  | exec (i : Nat)

/-- Follow one instruction of a schedule; one that cannot be followed is skipped. -/
def act (P : Pool M Call α) : Act Call → Pool M Call α
  | .start i c => match P.threads i with
    | none => ⟨P.shared, update P.threads i (some ⟨c, code c⟩)⟩
    | some _ => P
  | .exec i => match P.threads i with
    | some ⟨c, .op o k⟩ =>
      if M.enabled i o P.shared then
        ⟨(M.exec i o P.shared).2, update P.threads i (some ⟨c, k (M.exec i o P.shared).1⟩)⟩
      else P
    | _ => P

def schedule (as : List (Act Call)) (P : Pool M Call α) : Pool M Call α := as.foldl (act code) P

theorem act_steps (P : Pool M Call α) (a : Act Call) : Steps code P (act code P a) := by
  cases a with
  | start i c =>
    simp only [act]
    split
    · exact .single (.start P i c ‹_›)
    · exact .refl
  | exec i =>
    simp only [act]
    split
    · rename_i c o k h
      split
      · exact .single (.exec P i c o k h ‹_›)
      · exact .refl
    · exact .refl

theorem schedule_steps (as : List (Act Call)) : ∀ P : Pool M Call α, Steps code P (schedule code as P) := by
  induction as with
  | nil => exact fun _ => .refl
  | cons a as ih => exact fun P => (act_steps code P a).trans (ih _)

def Act.thread {Call : Type} : Act Call → Nat
  | .start i _ | .exec i => i

theorem act_other (P : Pool M Call α) {a : Act Call} {i : Nat} (h : a.thread ≠ i) : (act code P a).threads i = P.threads i := by
  cases a with
  | start j c =>
    simp only [act]
    split
    · exact Function.update_of_ne (Ne.symm h) _ _
    · rfl
  | exec j =>
    simp only [act]
    split
    · split
      · exact Function.update_of_ne (Ne.symm h) _ _
      · rfl
    · rfl

theorem schedule_other {as : List (Act Call)} {i : Nat} (h : ∀ a ∈ as, a.thread ≠ i) :
    ∀ P : Pool M Call α, (schedule code as P).threads i = P.threads i := by
  induction as with
  | nil => exact fun _ => rfl
  | cons a as ih =>
    intro P
    exact (ih (fun b hb => h b (List.mem_cons_of_mem _ hb)) _).trans (act_other code P (h a List.mem_cons_self))

/-! ## A thread runs to its end -/

/-- A thread can start at once. -/
theorem starts (s : M.State) (i : Nat) (c : Call) :
    ∃ P, Steps code (fresh s) P ∧ P.threads i = some ⟨c, code c⟩ :=
  ⟨_, .single (.start (fresh s) i c rfl), Function.update_self ..⟩

variable {code} in
theorem step_uses {A : S.Op → Prop} (hA : ∀ c, (code c).Uses A) {P P' : Pool M Call α} (hs : Step code P P')
    (h : ∀ i t, P.threads i = some t → t.prog.Uses A) : ∀ i t, P'.threads i = some t → t.prog.Uses A := by
  intro j u hu
  cases hs with
  | start i c hn =>
    rcases update_some hu with ⟨rfl, rfl⟩ | ⟨-, hu⟩
    · exact hA c
    · exact h j u hu
  | exec i c o k ht he =>
    rcases update_some hu with ⟨rfl, rfl⟩ | ⟨-, hu⟩
    · exact (h j _ ht).2 _
    · exact h j u hu

variable {code} in
/-- What the calls' programs can perform, a started thread can. -/
theorem steps_uses {A : S.Op → Prop} (hA : ∀ c, (code c).Uses A) {s : M.State} {P : Pool M Call α}
    (hs : Steps code (fresh s) P) : ∀ i t, P.threads i = some t → t.prog.Uses A := by
  induction hs with
  | refl => intro i t ht; cases ht
  | tail _ hs ih => exact step_uses hA hs ih

/-- What these operations keep, a run keeps. -/
theorem steps_keeps {A : S.Op → Prop} {I : M.State → Prop} (hA : ∀ c, (code c).Uses A)
    (hI : ∀ i o s, A o → I s → I (M.exec i o s).2) {s : M.State} (h : I s) {P : Pool M Call α} (hs : Steps code (fresh s) P) :
    I P.shared := by
  induction hs with
  | refl => exact h
  | tail hs' hs ih =>
    cases hs with
    | start i c hn => exact ih
    | exec i c o k ht he => exact hI i o _ (steps_uses hA hs' i _ ht).1 ih

/-- A started thread that never has to wait can be scheduled to its end, alone. -/
theorem finishes {A : S.Op → Prop} (hM : ∀ i o s, A o → M.enabled i o s = true) {P : Pool M Call α} {i : Nat}
    {t : Thread S Call α} (h : P.threads i = some t) (hA : t.prog.Uses A) :
    ∃ P', Steps code P P' ∧ (∀ j, j ≠ i → P'.threads j = P.threads j) ∧
      ((∃ a, P'.threads i = some ⟨t.call, .ret a⟩) ∨ ∃ e, P'.threads i = some ⟨t.call, .raise e⟩) := by
  obtain ⟨c, p⟩ := t
  induction p generalizing P with
  | ret a => exact ⟨P, .refl, fun _ _ => rfl, .inl ⟨a, h⟩⟩
  | raise e => exact ⟨P, .refl, fun _ _ => rfl, .inr ⟨e, h⟩⟩
  | op o k ih =>
    have hs : Step code P _ := .exec P i c o k h (hM _ _ _ hA.1)
    obtain ⟨P', hP', hj, hend⟩ := ih (M.exec i o P.shared).1
      (P := ⟨(M.exec i o P.shared).2, update P.threads i (some ⟨c, k (M.exec i o P.shared).1⟩)⟩) (by simp) (hA.2 _)
    exact ⟨P', .head hs hP', fun j hne => by rw [hj j hne]; simp [hne], hend⟩

end Pool

/-! ## Protocols -/

/-- What a thread in a local state may perform, and how an answer moves it. -/
structure Protocol (S : Sig) (Loc : Type) where
  can : Loc → S.Op → Prop
  step : Loc → (o : S.Op) → S.Ans o → Loc → Prop

variable {Loc α β : Type}

/-- The operation may be performed, and `P` holds of every answer to it. -/
def Protocol.Allows (T : Protocol S Loc) (l : Loc) (o : S.Op) (P : S.Ans o → Loc → Prop) : Prop :=
  T.can l o ∧ ∀ r l', T.step l o r l' → P r l'

/-- From local state `l` the program keeps to the protocol and ends as `Q` asks. -/
def Follows (T : Protocol S Loc) (Q : Loc → Except S.Exc α → Prop) : Loc → Prog S α → Prop
  | l, .ret a => Q l (.ok a)
  | l, .raise e => Q l (.error e)
  | l, .op o k => T.can l o ∧ ∀ r l', T.step l o r l' → Follows T Q l' (k r)

namespace Follows

variable {T : Protocol S Loc}

theorem mono {Q Q' : Loc → Except S.Exc α → Prop} (hQ : ∀ l r, Q l r → Q' l r) {p : Prog S α} {l : Loc}
    (h : Follows T Q l p) : Follows T Q' l p := by
  induction p generalizing l with
  | ret a => exact hQ _ _ h
  | raise e => exact hQ _ _ h
  | op o k ih => exact ⟨h.1, fun r l' hs => ih r (h.2 r l' hs)⟩

theorem bind {Q : Loc → Except S.Exc β → Prop} {p : Prog S α} {f : α → Prog S β} {l : Loc}
    (h : Follows T (fun l' r => match r with
      | .ok a => Follows T Q l' (f a)
      | .error e => Q l' (.error e)) l p) : Follows T Q l (p >>= f) := by
  induction p generalizing l with
  | ret a => exact h
  | raise e => exact h
  | op o k ih => exact ⟨h.1, fun r l' hs => ih r (h.2 r l' hs)⟩

theorem tryCatch {Q : Loc → Except S.Exc α → Prop} {p : Prog S α} {g : S.Exc → Prog S α} {l : Loc}
    (h : Follows T (fun l' r => match r with
      | .ok a => Q l' (.ok a)
      | .error e => Follows T Q l' (g e)) l p) : Follows T Q l (tryCatch p g) := by
  induction p generalizing l with
  | ret a => exact h
  | raise e => exact h
  | op o k ih => exact ⟨h.1, fun r l' hs => ih r (h.2 r l' hs)⟩

/-- An operation that leaves the local state as it is. -/
theorem still {Q : Loc → Except S.Exc α → Prop} {l : Loc} {o : S.Op} {k : S.Ans o → Prog S α} (hc : T.can l o)
    (hs : ∀ r l', T.step l o r l' → l' = l) (h : ∀ r, T.step l o r l → Follows T Q l (k r)) : Follows T Q l (.op o k) := by
  refine ⟨hc, fun r l' hl => ?_⟩
  obtain rfl := hs r l' hl
  exact h r hl

/-- A program whose operations leave the local state `l` as it is ends there. -/
theorem of_uses {A : S.Op → Prop} {l : Loc} (hc : ∀ o, A o → T.can l o)
    (hs : ∀ o, A o → ∀ r l', T.step l o r l' → l' = l) {Q : Loc → Except S.Exc α → Prop} (hQ : ∀ r, Q l r)
    {p : Prog S α} (h : p.Uses A) : Follows T Q l p := by
  induction p with
  | ret a => exact hQ _
  | raise e => exact hQ _
  | op o k ih =>
    refine ⟨hc o h.1, fun r l' hl => ?_⟩
    obtain rfl := hs o h.1 r l' hl
    exact ih r (h.2 r)

/-- A program whose operations are allowed wherever `I` holds, and keep it. -/
theorem within {A : S.Op → Prop} {I : Loc → Prop} (hc : ∀ l o, I l → A o → T.can l o)
    (hs : ∀ l o, I l → A o → ∀ r l', T.step l o r l' → I l') {Q : Loc → Except S.Exc α → Prop} (hQ : ∀ l r, I l → Q l r)
    {p : Prog S α} (h : p.Uses A) {l : Loc} (hl : I l) : Follows T Q l p := by
  induction p generalizing l with
  | ret a => exact hQ l _ hl
  | raise e => exact hQ l _ hl
  | op o k ih => exact ⟨hc l o hl h.1, fun r l' hr => ih r (h.2 r) (hs l o hl h.1 r l' hr)⟩

end Follows

/-! ## Outlines -/

/-- A protocol, what a call's thread ends with, and the invariant between the shared
    state and the local states of the threads that have started. `belongs` says which
    local states a call's thread can be in. -/
structure Outline (M : Machine S) (Call α Loc : Type) extends Protocol S Loc where
  post : Call → Loc → Except S.Exc α → Prop
  inv : M.State → (Nat → Option Loc) → Prop
  belongs : Call → Loc → Prop := fun _ _ => True

namespace Outline

variable {M : Machine S} {Call : Type}

/-- Each start and each operation keeps the invariant. -/
structure Sound (O : Outline M Call α Loc) (code : Call → Prog S α) : Prop where
  start : ∀ {s ls i} (c : Call), O.inv s ls → ls i = none →
    ∃ l, O.inv s (update ls i (some l)) ∧ O.belongs c l ∧ Follows O.toProtocol (O.post c) l (code c)
  exec : ∀ {s ls i l} (o : S.Op), O.inv s ls → ls i = some l → O.can l o → M.enabled i o s = true →
    ∃ l', O.step l o (M.exec i o s).1 l' ∧ O.inv (M.exec i o s).2 (update ls i (some l')) ∧
      ∀ c, O.belongs c l → O.belongs c l'

/-- The pool with local states `ls`: the invariant holds and every thread keeps to the
    protocol from where it is. -/
structure At (O : Outline M Call α Loc) (P : Pool M Call α) (ls : Nat → Option Loc) : Prop where
  inv : O.inv P.shared ls
  idle : ∀ i, P.threads i = none → ls i = none
  busy : ∀ i t, P.threads i = some t → ∃ l, ls i = some l ∧ O.belongs t.call l ∧
    Follows O.toProtocol (O.post t.call) l t.prog

def Holds (O : Outline M Call α Loc) (P : Pool M Call α) : Prop := ∃ ls, O.At P ls

theorem fresh_holds {O : Outline M Call α Loc} {s : M.State} (h : O.inv s fun _ => none) : O.Holds (Pool.fresh s) :=
  ⟨fun _ => none, h, fun _ _ => rfl, fun _ _ ht => by cases ht⟩

variable {O : Outline M Call α Loc} {code : Call → Prog S α}

/-- What a step does to thread `i` is its own; every other thread is where it was. -/
theorem At.step {P : Pool M Call α} {ls : Nat → Option Loc} (h : O.At P ls) {i : Nat} {t : Thread S Call α} {l : Loc} {s : M.State}
    (hi : O.inv s (update ls i (some l))) (hb : O.belongs t.call l) (hf : Follows O.toProtocol (O.post t.call) l t.prog) :
    O.At ⟨s, update P.threads i (some t)⟩ (update ls i (some l)) := by
  refine ⟨hi, fun j hj => ?_, fun j u hu => ?_⟩
  · obtain ⟨e, hj⟩ := update_none hj
    rw [Function.update_of_ne e]
    exact h.idle j hj
  · rcases update_some hu with ⟨rfl, rfl⟩ | ⟨e, hu⟩
    · exact ⟨l, Function.update_self .., hb, hf⟩
    · rw [Function.update_of_ne e]
      exact h.busy j u hu

/-- One operation of a thread. -/
theorem exec_at (hO : O.Sound code) {P : Pool M Call α} {ls : Nat → Option Loc} (h : O.At P ls) {i : Nat} {c : Call} {o : S.Op}
    {k : S.Ans o → Prog S α} (ht : P.threads i = some ⟨c, .op o k⟩) {l : Loc} (hl : ls i = some l)
    (he : M.enabled i o P.shared = true) :
    ∃ l', O.step l o (M.exec i o P.shared).1 l' ∧
      O.At ⟨(M.exec i o P.shared).2, update P.threads i (some ⟨c, k (M.exec i o P.shared).1⟩)⟩ (update ls i (some l')) := by
  obtain ⟨l₁, hl₁, hb, hcan, hk⟩ := h.busy i _ ht
  obtain rfl : l = l₁ := Option.some.inj (hl.symm.trans hl₁)
  obtain ⟨l', hstep, hi', hb'⟩ := hO.exec o h.inv hl hcan he
  exact ⟨l', hstep, h.step hi' (hb' c hb) (hk _ _ hstep)⟩

theorem step_keeps (hO : O.Sound code) {P P' : Pool M Call α} (hs : Pool.Step code P P') (h : O.Holds P) :
    O.Holds P' := by
  obtain ⟨ls, hP⟩ := h
  cases hs with
  | start i c hn =>
    obtain ⟨l, hi, hb, hf⟩ := hO.start c hP.inv (hP.idle i hn)
    exact ⟨_, hP.step hi hb hf⟩
  | exec i c o k ht he =>
    obtain ⟨l, hl, -⟩ := hP.busy i _ ht
    obtain ⟨l', -, hP'⟩ := exec_at hO hP ht hl he
    exact ⟨_, hP'⟩

/-- Whatever the interleaving, the invariant holds and every thread keeps to the
    protocol. -/
theorem keeps (hO : O.Sound code) {P P' : Pool M Call α} (hs : Pool.Steps code P P') (h : O.Holds P) : O.Holds P' := by
  induction hs with
  | refl => exact h
  | tail _ hs ih => exact step_keeps hO hs ih

/-- The same outline, of calls that stand for others. -/
def comap {Call' : Type} (O : Outline M Call α Loc) (f : Call' → Call) : Outline M Call' α Loc :=
  { O with post := fun c => O.post (f c), belongs := fun c => O.belongs (f c) }

theorem Sound.comap {Call' : Type} (hO : O.Sound code) (f : Call' → Call) : (O.comap f).Sound fun c => code (f c) where
  start c h hi := hO.start (f c) h hi
  exec o h hl hcan hen := by
    obtain ⟨l', hs, hi, hb⟩ := hO.exec o h hl hcan hen
    exact ⟨l', hs, hi, fun c => hb (f c)⟩

/-- A started thread whose next operation is enabled as long as `G` holds, and keeps it, can
    be scheduled to its end while the others stay where they are. -/
theorem runs_out (hO : O.Sound code) {i : Nat} {G : M.State → Loc → Prop}
    (hG : ∀ {s ls l} (o : S.Op), O.inv s ls → ls i = some l → G s l → O.can l o → M.enabled i o s = true ∧
      ∀ l', O.step l o (M.exec i o s).1 l' → G (M.exec i o s).2 l')
    {P : Pool M Call α} {c : Call} {p : Prog S α} (ht : P.threads i = some ⟨c, p⟩) {ls : Nat → Option Loc} (hP : O.At P ls)
    {l : Loc} (hl : ls i = some l) (hg : G P.shared l) :
    ∃ P' ls' l', Pool.Steps code P P' ∧ (∀ j, j ≠ i → P'.threads j = P.threads j) ∧ O.At P' ls' ∧ ls' i = some l' ∧ G P'.shared l' ∧
      ((∃ a, P'.threads i = some ⟨c, .ret a⟩) ∨ ∃ e, P'.threads i = some ⟨c, .raise e⟩) := by
  induction p generalizing P ls l with
  | ret a => exact ⟨P, ls, l, .refl, fun _ _ => rfl, hP, hl, hg, .inl ⟨a, ht⟩⟩
  | raise e => exact ⟨P, ls, l, .refl, fun _ _ => rfl, hP, hl, hg, .inr ⟨e, ht⟩⟩
  | op o k ih =>
    obtain ⟨l₁, hl₁, -, hcan, -⟩ := hP.busy i _ ht
    obtain rfl : l = l₁ := Option.some.inj (hl.symm.trans hl₁)
    obtain ⟨hen, hkeep⟩ := hG o hP.inv hl hg hcan
    obtain ⟨l', hstep, hAt⟩ := exec_at hO hP ht hl hen
    obtain ⟨P', ls', l'', hs, hj, hend⟩ := ih (M.exec i o P.shared).1 (Function.update_self ..) hAt (Function.update_self ..)
      (hkeep l' hstep)
    exact ⟨P', ls', l'', .head (.exec P i c o k ht hen) hs, fun j hne => by rw [hj j hne]; simp [hne], hend⟩

/-- A finished thread ended as its call's postcondition asks. -/
theorem At.returned {P : Pool M Call α} {ls : Nat → Option Loc} (h : O.At P ls) {i : Nat} {c : Call} {a : α}
    (ht : P.threads i = some ⟨c, .ret a⟩) : ∃ l, ls i = some l ∧ O.post c l (.ok a) := by
  obtain ⟨l, hl, -, hp⟩ := h.busy i _ ht
  exact ⟨l, hl, hp⟩

theorem At.raised {P : Pool M Call α} {ls : Nat → Option Loc} (h : O.At P ls) {i : Nat} {c : Call} {e : S.Exc}
    (ht : P.threads i = some ⟨c, .raise e⟩) : ∃ l, ls i = some l ∧ O.post c l (.error e) := by
  obtain ⟨l, hl, -, hp⟩ := h.busy i _ ht
  exact ⟨l, hl, hp⟩

/-! ## Draining -/

/-- Thread `i` is run to its end, and no other thread moves. -/
structure RunOut (code : Call → Prog S α) (i : Nat) (P P' : Pool M Call α) : Prop where
  steps : Pool.Steps code P P'
  others : ∀ j, j ≠ i → P'.threads j = P.threads j
  ended : ∃ t, P'.threads i = some t ∧ t.prog.Ended

/-- If in every state in which somebody is at work some thread at work can be run to its end,
    then all that have started can be run to their ends. -/
theorem drain (hO : O.Sound code)
    (hnext : ∀ P, O.Holds P → (∃ j t, P.threads j = some t ∧ ¬ t.prog.Ended) →
      ∃ i t P', P.threads i = some t ∧ ¬ t.prog.Ended ∧ RunOut code i P P')
    (is : List Nat) : ∀ {P : Pool M Call α}, O.Holds P → (∀ j t, P.threads j = some t → ¬ t.prog.Ended → j ∈ is) →
      ∃ P', Pool.Steps code P P' ∧ (∀ j, P'.threads j = none ↔ P.threads j = none) ∧ ∀ j t, P'.threads j = some t → t.prog.Ended := by
  generalize hn : is.length = n
  induction n generalizing is with
  | zero =>
    obtain rfl := List.length_eq_zero_iff.mp hn
    intro P hP his
    refine ⟨P, .refl, fun j => .rfl, fun j t ht => ?_⟩
    by_contra hend
    exact absurd (his j t ht hend) List.not_mem_nil
  | succ n ih =>
    intro P hP his
    by_cases hbusy : ∃ j t, P.threads j = some t ∧ ¬ t.prog.Ended
    · obtain ⟨i, t, P₁, hi, hwork, hrun⟩ := hnext P hP hbusy
      obtain ⟨t₁, hi₁, hend₁⟩ := hrun.ended
      have hmem := his i t hi hwork
      have his₁ : ∀ j u, P₁.threads j = some u → ¬ u.prog.Ended → j ∈ is.erase i := by
        intro j u hj hu
        have hne : j ≠ i := by
          intro e
          rw [e, hi₁] at hj
          cases hj
          exact hu hend₁
        rw [hrun.others j hne] at hj
        exact (List.mem_erase_of_ne hne).mpr (his j u hj hu)
      have hlen : (is.erase i).length = n := by rw [List.length_erase_of_mem hmem, hn]; rfl
      obtain ⟨P₂, hs₂, hsame, hend⟩ := ih (is.erase i) hlen (keeps hO hrun.steps hP) his₁
      refine ⟨P₂, hrun.steps.trans hs₂, fun j => (hsame j).trans ?_, hend⟩
      by_cases e : j = i
      · rw [e, hi, hi₁]
        simp
      · rw [hrun.others j e]
    · refine ⟨P, .refl, fun j => .rfl, fun j t ht => ?_⟩
      by_contra hend
      exact hbusy ⟨j, t, ht, hend⟩

end Outline

end CivicPulse.Lang
