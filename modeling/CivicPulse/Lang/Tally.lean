/-
  CivicPulse.Lang.Tally — a list that many threads write to, read thread by thread.

  - `perm_of_tallies`: if each of some threads has one entry and the others have none, the
    list holds these entries, in some order.
  - `order_of_tallies`: then it is the threads, in some order, each with its entry.
-/

import Mathlib.Data.List.Nodup
import Mathlib.Data.List.Perm.Basic

namespace CivicPulse.Lang

variable {β : Type} [DecidableEq β]

/-- What the list has from one thread. -/
def tally (j : Nat) (l : List (Nat × β)) : List β := (l.filter fun e => e.1 == j).map Prod.snd

omit [DecidableEq β] in
theorem tally_cons (j i : Nat) (b : β) (l : List (Nat × β)) :
    tally j ((i, b) :: l) = if i = j then b :: tally j l else tally j l := by
  by_cases h : i = j
  · simp [tally, h]
  · simp [tally, h]

omit [DecidableEq β] in
theorem mem_tally {j : Nat} {b : β} {l : List (Nat × β)} : b ∈ tally j l ↔ (j, b) ∈ l := by
  simp only [tally, List.mem_map, List.mem_filter, beq_iff_eq]
  constructor
  · intro h
    obtain ⟨⟨i, b⟩, ⟨hm, rfl⟩, rfl⟩ := h
    exact hm
  · intro h
    exact ⟨(j, b), ⟨h, rfl⟩, rfl⟩

theorem count_le_tally (j : Nat) (b : β) (l : List (Nat × β)) : l.count (j, b) ≤ (tally j l).length := by
  rw [tally, List.length_map, ← List.count_filter (p := fun e => e.1 == j) (by simp)]
  exact List.count_le_length

variable {l : List (Nat × β)} {is : List Nat} {f : Nat → β}

theorem perm_of_tallies (hn : is.Nodup) (h : ∀ j, tally j l = if j ∈ is then [f j] else []) :
    l.Perm (is.map fun j => (j, f j)) := by
  have hl : l.Nodup := by
    refine List.nodup_iff_count_le_one.mpr fun e => Nat.le_trans (count_le_tally e.1 e.2 l) ?_
    rw [h]
    split <;> simp
  have hm : (is.map fun j => (j, f j)).Nodup := hn.map fun i j hij => (Prod.mk.inj hij).1
  refine (List.perm_ext_iff_of_nodup hl hm).mpr fun e => ?_
  obtain ⟨j, b⟩ := e
  rw [← mem_tally, h]
  by_cases hj : j ∈ is
  · simp only [if_pos hj, List.mem_singleton, List.mem_map, Prod.mk.injEq]
    constructor
    · intro hb
      exact ⟨j, hj, rfl, hb.symm⟩
    · intro hb
      obtain ⟨i, -, rfl, rfl⟩ := hb
      rfl
  · simp only [if_neg hj, List.not_mem_nil, List.mem_map, Prod.mk.injEq, false_iff]
    intro hb
    obtain ⟨i, hi, rfl, -⟩ := hb
    exact hj hi

theorem order_of_tallies (hn : is.Nodup) (h : ∀ j, tally j l = if j ∈ is then [f j] else []) :
    (l.map Prod.fst).Perm is ∧ l.map Prod.snd = (l.map Prod.fst).map f := by
  have hperm := perm_of_tallies hn h
  constructor
  · have := hperm.map Prod.fst
    rwa [List.map_map, show (Prod.fst ∘ fun j => (j, f j)) = id from rfl, List.map_id] at this
  · rw [List.map_map]
    refine List.map_congr_left fun e he => ?_
    obtain ⟨j, -, rfl⟩ := List.mem_map.mp (hperm.subset he)
    rfl

end CivicPulse.Lang
