/-
  CivicPulse.Lang.Paging — pages of a list in the order of its elements' keys, read one after
  the other, also while the list grows.

  - `pages_flatten`: the pages one after the other are the sorted list.
  - `sortBy_perm`: the order the elements were in does not matter.
  - `mem_page`: an element is on the page its rank falls on.
  - `rank_mono`: a list that only gains keys moves an element back, never forward.
  - `page_or_after`: an element that is not before a page is on it or after it.
  - `page_full`: a page with an element after it is full.
  - `page_map`: what an order does not look at may be forgotten before or after.
-/

import Mathlib.Data.List.Sort

namespace CivicPulse.Lang

variable {α κ : Type} [LinearOrder κ] (key : α → κ)

/-- `ORDER BY key`. -/
def sortBy (l : List α) : List α := l.insertionSort fun a b => key a ≤ key b

/-- `OFFSET offset LIMIT limit` of that order. -/
def page (offset limit : Nat) (l : List α) : List α := ((sortBy key l).drop offset).take limit

/-- How many elements come before a key. -/
def rank (l : List α) (k : κ) : Nat := l.countP fun a => key a < k

variable {key} {l l' : List α} {a : α}

theorem mem_sortBy : a ∈ sortBy key l ↔ a ∈ l := List.mem_insertionSort _

theorem sortBy_sorted (hnodup : (l.map key).Nodup) : (sortBy key l).Pairwise fun a b => key a < key b := by
  have : IsTrans α fun a b => key a ≤ key b := ⟨fun _ _ _ => le_trans⟩
  have : Std.Total fun a b : α => key a ≤ key b := ⟨fun _ _ => le_total _ _⟩
  have hle : (sortBy key l).Pairwise fun a b => key a ≤ key b := List.pairwise_insertionSort _ _
  have hne : (sortBy key l).Pairwise fun a b => key a ≠ key b := by
    refine List.pairwise_map.mp ?_
    exact ((List.perm_insertionSort _ l).map key).nodup_iff.mpr hnodup
  exact (hle.and hne).imp fun h => lt_of_le_of_ne h.1 h.2

/-- What comes before an element is what its rank counts. -/
theorem sortBy_split (hnodup : (l.map key).Nodup) (ha : a ∈ l) :
    ∃ l₁ l₂, sortBy key l = l₁ ++ a :: l₂ ∧ l₁.length = rank key l (key a) := by
  obtain ⟨l₁, l₂, h⟩ := List.append_of_mem ((mem_sortBy (α := α)).mpr ha : a ∈ sortBy key l)
  have hsorted := sortBy_sorted hnodup
  rw [h, List.pairwise_append, List.pairwise_cons] at hsorted
  obtain ⟨-, ⟨hafter, -⟩, hbefore⟩ := hsorted
  refine ⟨l₁, l₂, h, ?_⟩
  have hrank : rank key l (key a) = (l₁ ++ a :: l₂).countP fun b => key b < key a := by
    rw [← h]
    exact ((List.perm_insertionSort _ l).countP_eq _).symm
  have h₁ : l₁.countP (fun b => key b < key a) = l₁.length :=
    List.countP_eq_length.mpr fun b hb => by simpa using hbefore b hb a List.mem_cons_self
  have h₂ : (a :: l₂).countP (fun b => key b < key a) = 0 := by
    refine List.countP_eq_zero.mpr fun b hb => ?_
    rcases List.mem_cons.mp hb with rfl | hb
    · simp
    · simpa using (hafter b hb).le
  rw [hrank, List.countP_append, h₁, h₂, Nat.add_zero]

theorem rank_lt_length (hnodup : (l.map key).Nodup) (ha : a ∈ l) : rank key l (key a) < l.length := by
  obtain ⟨l₁, l₂, h, hlen⟩ := sortBy_split hnodup ha
  have := congrArg List.length h
  rw [sortBy, List.length_insertionSort, List.length_append, List.length_cons] at this
  omega

theorem mem_page (hnodup : (l.map key).Nodup) (ha : a ∈ l) {offset limit : Nat} (hlo : offset ≤ rank key l (key a))
    (hhi : rank key l (key a) < offset + limit) : a ∈ page key offset limit l := by
  obtain ⟨l₁, l₂, h, hlen⟩ := sortBy_split hnodup ha
  rw [page, h, List.drop_append_of_le_length (by omega), List.take_append]
  refine List.mem_append_right _ ?_
  obtain ⟨n, hn⟩ : ∃ n, limit - (l₁.drop offset).length = n + 1 := ⟨_, (Nat.succ_pred_eq_of_pos (by simp; omega)).symm⟩
  rw [hn, List.take_succ_cons]
  exact List.mem_cons_self

theorem length_page (offset limit : Nat) (l : List α) : (page key offset limit l).length = min limit (l.length - offset) := by
  rw [page, List.length_take, List.length_drop, sortBy, List.length_insertionSort]

/-! ## All pages -/

/-- `ORDER BY` does not look at where the elements were. -/
theorem sortBy_perm (hnodup : (l.map key).Nodup) (h : l.Perm l') : sortBy key l = sortBy key l' := by
  have hsorted := sortBy_sorted hnodup
  have hsorted' := sortBy_sorted ((h.map key).nodup_iff.mp hnodup)
  have hperm : (sortBy key l).Perm (sortBy key l') :=
    (List.perm_insertionSort _ l).trans (h.trans (List.perm_insertionSort _ l').symm)
  exact hperm.eq_of_pairwise (fun a b _ _ hab hba => absurd hba (not_lt_of_gt hab)) hsorted hsorted'

theorem page_nil {offset : Nat} (h : l.length ≤ offset) (limit : Nat) : page key offset limit l = [] := by
  rw [page, List.drop_eq_nil_of_le (by rwa [sortBy, List.length_insertionSort]), List.take_nil]

/-- The first pages, one after the other. -/
theorem pages_take (l : List α) (s n : Nat) :
    (List.range n).flatMap (fun k => page key (k * s) s l) = (sortBy key l).take (n * s) := by
  induction n with
  | zero => simp
  | succ n ih => rw [List.range_succ, List.flatMap_append, ih, List.flatMap_singleton, page, Nat.add_mul, Nat.one_mul, List.take_add]

theorem pages_flatten {s n : Nat} (h : l.length ≤ n * s) :
    (List.range n).flatMap (fun k => page key (k * s) s l) = sortBy key l := by
  rw [pages_take, List.take_of_length_le (by rwa [sortBy, List.length_insertionSort])]

/-! ## Growing lists -/

/-- Keys that are added move an element back. -/
theorem rank_mono (hnodup : (l.map key).Nodup) (hsub : l.map key ⊆ l'.map key) (k : κ) : rank key l k ≤ rank key l' k := by
  have hrank : ∀ l : List α, rank key l k = ((l.map key).filter fun x => x < k).length := by
    intro l
    rw [rank, ← List.countP_eq_length_filter, List.countP_map]
    rfl
  rw [hrank, hrank]
  refine (List.subperm_of_subset (hnodup.filter _) fun x hx => ?_).length_le
  obtain ⟨hx, hlt⟩ := List.mem_filter.mp hx
  exact List.mem_filter.mpr ⟨hsub hx, hlt⟩

/-- Not before the page: on it, or after it. -/
theorem page_or_after (hnodup : (l.map key).Nodup) (ha : a ∈ l) {n s : Nat} (h : n * s ≤ rank key l (key a)) :
    a ∈ page key (n * s) s l ∨ (n + 1) * s ≤ rank key l (key a) := by
  by_cases hlt : rank key l (key a) < n * s + s
  · exact .inl (mem_page hnodup ha h hlt)
  · exact .inr (by rw [Nat.add_mul, Nat.one_mul]; omega)

/-- A page with an element after it is full. -/
theorem page_full (hnodup : (l.map key).Nodup) (ha : a ∈ l) {n s : Nat} (h : (n + 1) * s ≤ rank key l (key a)) :
    (page key (n * s) s l).length = s := by
  have hlt := rank_lt_length hnodup ha
  rw [Nat.add_mul, Nat.one_mul] at h
  rw [length_page]
  omega

theorem page_map {f : α → α} (h : ∀ a, key (f a) = key a) (offset limit : Nat) (l : List α) :
    page key offset limit (l.map f) = (page key offset limit l).map f := by
  have hsort : sortBy key (l.map f) = (sortBy key l).map f :=
    (List.map_insertionSort _ _ _ _ fun a _ b _ => by rw [h, h]).symm
  rw [page, hsort, ← List.map_drop, ← List.map_take]
  rfl

end CivicPulse.Lang
