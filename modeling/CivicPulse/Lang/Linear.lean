/-
  CivicPulse.Lang.Linear — operations that take effect at one instant.

  A machine that writes down which thread performs each operation dates what its threads do:
  the date is the number of operations before it. A linearization gives some threads one
  dated deed each, at an operation of their own; read in order, the deeds are steps of a
  sequential object.
  - `Aligned.act` / `Aligned.skip`: one operation, with and without a deed.
  - `Aligned.realtime`: whoever has ended before another starts comes before it.
-/

import Mathlib.Data.List.Nodup
import CivicPulse.Lang.Pool

namespace CivicPulse.Lang

open Function (update)

variable {Oper Out A : Type}

/-! ## Sequential objects -/

/-- What one thread did to the object, and when. -/
structure Deed (Oper Out : Type) where
  at_ : Nat
  tid : Nat
  op : Oper
  out : Out

/-- The deeds, newest first, lead from `a₀` to `a`. -/
inductive Path (step : A → Oper → Out → A → Prop) (a₀ : A) : List (Deed Oper Out) → A → Prop
  | nil : Path step a₀ [] a₀
  | cons {es : List (Deed Oper Out)} {a a' : A} (e : Deed Oper Out) : Path step a₀ es a → step a e.op e.out a' → Path step a₀ (e :: es) a'

/-! ## Dates -/

/-- The deeds are at operations of their threads, one a thread. -/
structure Aligned (log : List Nat) (es : List (Deed Oper Out)) : Prop where
  newest : es.Pairwise fun e e' => e'.at_ < e.at_
  own : ∀ e ∈ es, log.reverse[e.at_]? = some e.tid
  once : (es.map (·.tid)).Nodup

namespace Aligned

variable {log : List Nat} {es : List (Deed Oper Out)} {i : Nat}

theorem nil : Aligned log ([] : List (Deed Oper Out)) := ⟨.nil, nofun, .nil⟩

theorem at_lt (h : Aligned log es) {e : Deed Oper Out} (he : e ∈ es) : e.at_ < log.length := by
  rw [← List.length_reverse]
  exact (List.getElem?_eq_some_iff.mp (h.own e he)).1

theorem skip (h : Aligned log es) (i : Nat) : Aligned (i :: log) es := by
  refine ⟨h.newest, fun e he => ?_, h.once⟩
  rw [List.reverse_cons, List.getElem?_append_left (by rw [List.length_reverse]; exact h.at_lt he)]
  exact h.own e he

theorem act (h : Aligned log es) (hi : ∀ e ∈ es, e.tid ≠ i) (op : Oper) (out : Out) :
    Aligned (i :: log) (⟨log.length, i, op, out⟩ :: es) := by
  refine ⟨.cons (fun e he => h.at_lt he) h.newest, fun e he => ?_, ?_⟩
  · rcases List.mem_cons.mp he with rfl | he
    · rw [List.reverse_cons, List.getElem?_append_right (by simp)]
      simp
    · exact (h.skip i).own e he
  · rw [List.map_cons, List.nodup_cons]
    refine ⟨fun hm => ?_, h.once⟩
    obtain ⟨e, he, htid⟩ := List.mem_map.mp hm
    exact hi e he htid

end Aligned

/-! ## Runs -/

variable {S : Sig} {M : Machine S} {Call α : Type} {code : Call → Prog S α}

/-- Each operation is written down with its thread. -/
def Stamps (M : Machine S) (log : M.State → List Nat) : Prop := ∀ i o s, log (M.exec i o s).2 = i :: log s

variable {log : M.State → List Nat}

/-- What is written down during a run is of threads that had not ended. -/
theorem steps_log (hM : Stamps M log) {P P' : Pool M Call α} (hs : Pool.Steps code P P') :
    ∃ newer, log P'.shared = newer ++ log P.shared ∧ ∀ i ∈ newer, ∀ t, P.threads i = some t → ¬ t.prog.Ended := by
  induction hs with
  | refl => exact ⟨[], rfl, nofun⟩
  | tail hs' hs ih =>
    obtain ⟨newer, hlog, hnewer⟩ := ih
    cases hs with
    | start j c hn => exact ⟨newer, hlog, hnewer⟩
    | exec j c o k ht he =>
      refine ⟨j :: newer, by rw [hM, hlog]; rfl, fun i hi t h hend => ?_⟩
      rcases List.mem_cons.mp hi with rfl | hi
      · have hsame := Pool.steps_ended hs' h hend
        rw [ht] at hsame
        cases hsame
        exact hend
      · exact hnewer i hi t h hend

/-- What is written down is of threads that have started. -/
theorem log_started (hM : Stamps M log) {s : M.State} (h₀ : log s = []) {P : Pool M Call α} (hs : Pool.Steps code (.fresh s) P) :
    ∀ i ∈ log P.shared, P.threads i ≠ none := by
  induction hs with
  | refl =>
    intro i hi
    rw [show log (Pool.fresh s : Pool M Call α).shared = [] from h₀] at hi
    cases hi
  | tail _ hs ih =>
    intro i hi
    cases hs with
    | start j c hn =>
      by_cases e : i = j
      · subst e
        simp
      · exact fun hnone => ih i hi (update_none hnone).2
    | exec j c o k ht he =>
      by_cases e : i = j
      · subst e
        simp
      · have hi : i ∈ log (M.exec j o _).2 := hi
        rw [hM] at hi
        exact fun hnone => ih i ((List.mem_cons.mp hi).resolve_left e) (update_none hnone).2

/-- The deed of a thread that has ended before another starts is before the other's. -/
theorem Aligned.realtime (hM : Stamps M log) {s : M.State} (h₀ : log s = []) {P P' : Pool M Call α}
    (hs : Pool.Steps code (.fresh s) P) (hs' : Pool.Steps code P P') {es : List (Deed Oper Out)} (h : Aligned (log P'.shared) es)
    {i j : Nat} {t : Thread S Call α} (hi : P.threads i = some t) (hend : t.prog.Ended) (hj : P.threads j = none)
    {e e' : Deed Oper Out} (he : e ∈ es) (he' : e' ∈ es) (hei : e.tid = i) (hej : e'.tid = j) : e.at_ < e'.at_ := by
  obtain ⟨newer, hlog, hnewer⟩ := steps_log hM hs'
  have hrev : (log P'.shared).reverse = (log P.shared).reverse ++ newer.reverse := by rw [hlog, List.reverse_append]
  have hold : e.at_ < (log P.shared).length := by
    by_contra hge
    have hown := h.own e he
    rw [hrev, List.getElem?_append_right (by rw [List.length_reverse]; omega)] at hown
    have hmem : e.tid ∈ newer := List.mem_reverse.mp (List.mem_of_getElem? hown)
    rw [hei] at hmem
    exact hnewer i hmem t hi hend
  have hnew : (log P.shared).length ≤ e'.at_ := by
    by_contra hlt
    have hown := h.own e' he'
    rw [hrev, List.getElem?_append_left (by rw [List.length_reverse]; omega)] at hown
    have hmem : e'.tid ∈ log P.shared := List.mem_reverse.mp (List.mem_of_getElem? hown)
    rw [hej] at hmem
    exact log_started hM h₀ hs j hmem hj
  omega

end CivicPulse.Lang
