/-
  CivicPulse.Text.Occurrences — where a literal starts in a text, and what lies between two
  literals.

  - `occurrences_skip`: nothing starts in text that lacks the literal's first character.
  - `occurrence_unique`: a literal that starts once starts in one place.
  - `between_unique`: what lies between two literals that each start once.
-/

import Mathlib.Data.List.Infix
import CivicPulse.Text.Str

namespace CivicPulse.Text

variable {α : Type*} [DecidableEq α] {w s a a' b b' : List α}

/-- The number of places of `s` where `w` starts. -/
def occurrences (w s : List α) : Nat := s.tails.countP fun t => decide (w <+: t)

theorem occurrences_cons (c : α) (w s : List α) :
    occurrences w (c :: s) = occurrences w s + if w <+: c :: s then 1 else 0 := by
  simp [occurrences, List.countP_cons]

theorem occurrences_nil {d : α} : occurrences (d :: w) [] = 0 := by simp [occurrences]

theorem occurrences_skip {d : α} (h : d ∉ a) : occurrences (d :: w) (a ++ s) = occurrences (d :: w) s := by
  induction a with
  | nil => rfl
  | cons c a ih =>
    have hc : ¬ d :: w <+: c :: (a ++ s) := by
      intro hp
      obtain ⟨rfl, -⟩ := List.cons_prefix_cons.mp hp
      exact h List.mem_cons_self
    rw [List.cons_append, occurrences_cons, if_neg hc, Nat.add_zero, ih fun hm => h (List.mem_cons_of_mem _ hm)]

theorem occurrences_le_append (w a s : List α) : occurrences w s ≤ occurrences w (a ++ s) := by
  induction a with
  | nil => exact Nat.le_refl _
  | cons c a ih =>
    rw [List.cons_append, occurrences_cons]
    omega

/-- One place more than after the first. -/
theorem occurrences_head {d : α} (w b : List α) :
    occurrences (d :: w) ((d :: w) ++ b) = occurrences (d :: w) (w ++ b) + 1 := by
  have hp : d :: w <+: d :: (w ++ b) := List.prefix_append (d :: w) b
  rw [List.cons_append, occurrences_cons, if_pos hp]

theorem occurrence_unique {d : α} (h : occurrences (d :: w) s = 1) (h1 : s = a ++ ((d :: w) ++ b))
    (h2 : s = a' ++ ((d :: w) ++ b')) : a = a' := by
  -- a second place after the first would make two
  have hlate : ∀ {a b y b' : List α}, s = a ++ ((d :: w) ++ b) → (d :: w) ++ b = y ++ ((d :: w) ++ b') → y = [] := by
    intro a b y b' h1 h2
    rcases y with _ | ⟨c, y⟩
    · rfl
    · have hle := occurrences_le_append (d :: w) a ((d :: w) ++ b)
      have htail : w ++ b = y ++ ((d :: w) ++ b') := (List.cons.inj h2).2
      have hrest := occurrences_le_append (d :: w) y ((d :: w) ++ b')
      rw [← h1, h, occurrences_head, htail] at hle
      rw [occurrences_head] at hrest
      omega
  rcases List.append_eq_append_iff.mp (h1.symm.trans h2) with ⟨y, hy, he⟩ | ⟨y, hy, he⟩
  · rw [hlate h1 he, List.append_nil] at hy
    exact hy.symm
  · rw [hlate h2 he, List.append_nil] at hy
    exact hy

/-- `m` lies between an `op` and a `cl`. -/
def Between (op cl s m : List α) : Prop := ∃ a b, s = a ++ (op ++ (m ++ (cl ++ b)))

theorem between_unique {op cl m m' : List α} (hne : op ≠ [] ∧ cl ≠ []) (hop : occurrences op s = 1)
    (hcl : occurrences cl s = 1) (h : Between op cl s m) (h' : Between op cl s m') : m = m' := by
  obtain ⟨c, op, rfl⟩ := List.exists_cons_of_ne_nil hne.1
  obtain ⟨d, cl, rfl⟩ := List.exists_cons_of_ne_nil hne.2
  obtain ⟨a, b, hs⟩ := h
  obtain ⟨a', b', hs'⟩ := h'
  obtain rfl : a = a' := occurrence_unique hop hs hs'
  have split : ∀ {m b : List α}, s = a ++ (c :: op ++ (m ++ (d :: cl ++ b))) →
      s = (a ++ (c :: op) ++ m) ++ ((d :: cl) ++ b) := fun h => h.trans (by simp)
  have hend : a ++ (c :: op) ++ m = a ++ (c :: op) ++ m' := occurrence_unique hcl (split hs) (split hs')
  exact List.append_cancel_left hend

theorem between_iff {op cl m m' : List α} (hne : op ≠ [] ∧ cl ≠ []) (hop : occurrences op s = 1)
    (hcl : occurrences cl s = 1) (h : Between op cl s m) : Between op cl s m' ↔ m' = m :=
  ⟨fun h' => between_unique hne hop hcl h' h, fun e => e ▸ h⟩

end CivicPulse.Text
