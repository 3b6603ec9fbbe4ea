/-
  CivicPulse.Services.ContentHash — which complaints share a cache entry, when SHA-256
  has no collisions.

  - `contentHash_eq_iff`: two complaints share a hash when both fields normalise alike,
    or when the bar between text and location stands elsewhere (`BarShift`).
  - `content_hash_separates_iff`: so the hash tells two complaints apart exactly when no
    bar can be moved.
-/

import CivicPulse.Services.Triage

namespace CivicPulse

open Text

variable [Platform]

/-- Lower-cased, white space collapsed. -/
def normalised (s : Str) : Str := collapse (lower s)

omit [Platform] in
/-- The text `a'` goes on after `a` with a bar and a block that opens the location `b`. -/
def BarShift (a b a' b' : Str) : Prop := ∃ m, a' = a ++ '|' :: m ∧ b = m ++ '|' :: b'

theorem contentHash_eq_iff (hsha : Function.Injective (sha256 : Str → Str)) (t₁ l₁ t₂ l₂ : Str) :
    contentHash t₁ l₁ = contentHash t₂ l₂ ↔
      (normalised t₁ = normalised t₂ ∧ normalised l₁ = normalised l₂) ∨
        BarShift (normalised t₁) (normalised l₁) (normalised t₂) (normalised l₂) ∨
        BarShift (normalised t₂) (normalised l₂) (normalised t₁) (normalised l₁) := by
  unfold contentHash
  rw [hsha.eq_iff]
  exact join_bar_eq '|' _ _ _ _

omit [Platform] in
/-- A moved bar leaves a longer text. -/
theorem BarShift.ne {a b a' b' : Str} (h : BarShift a b a' b') : a ≠ a' := by
  intro he
  obtain ⟨m, hm, -⟩ := h
  have := congrArg List.length hm
  rw [← he] at this
  simp at this

/-- The hash separates two complaints that differ after normalisation exactly when neither
    is the other with its bar moved. -/
theorem content_hash_separates_iff (hsha : Function.Injective (sha256 : Str → Str)) (t₁ l₁ t₂ l₂ : Str) :
    (contentHash t₁ l₁ = contentHash t₂ l₂ → normalised t₁ = normalised t₂ ∧ normalised l₁ = normalised l₂) ↔
      ¬ BarShift (normalised t₁) (normalised l₁) (normalised t₂) (normalised l₂) ∧
        ¬ BarShift (normalised t₂) (normalised l₂) (normalised t₁) (normalised l₁) := by
  rw [contentHash_eq_iff hsha]
  constructor
  · intro h
    exact ⟨fun hs => hs.ne (h (.inr (.inl hs))).1, fun hs => hs.ne (h (.inr (.inr hs))).1.symm⟩
  · intro h heq
    rcases heq with heq | hs | hs
    · exact heq
    · exact absurd hs h.1
    · exact absurd hs h.2

omit [Platform] in
/-- At a pair of complaints about one place, the first with a doubled space. -/
theorem content_hash_separates_burst :
    (@contentHash .ascii "Water  pipe burst near school".toList "Street 12".toList =
        @contentHash .ascii "water pipe burst near school".toList "street 12".toList →
      @normalised .ascii "Water  pipe burst near school".toList = @normalised .ascii "water pipe burst near school".toList ∧
        @normalised .ascii "Street 12".toList = @normalised .ascii "street 12".toList) ↔
      ¬ BarShift (@normalised .ascii "Water  pipe burst near school".toList) (@normalised .ascii "Street 12".toList)
          (@normalised .ascii "water pipe burst near school".toList) (@normalised .ascii "street 12".toList) ∧
        ¬ BarShift (@normalised .ascii "water pipe burst near school".toList) (@normalised .ascii "street 12".toList)
          (@normalised .ascii "Water  pipe burst near school".toList) (@normalised .ascii "Street 12".toList) :=
  @content_hash_separates_iff .ascii Platform.digest_injective _ _ _ _

omit [Platform] in
/-- A bar in the first text, or at the same place in the second location. -/
theorem content_hash_collides :
    Function.Injective (@sha256 .ascii) ∧
      @contentHash .ascii "burst pipe|sector g-11".toList "street 12".toList =
        @contentHash .ascii "burst pipe".toList "sector g-11|street 12".toList ∧
      @normalised .ascii "burst pipe|sector g-11".toList ≠ @normalised .ascii "burst pipe".toList ∧
      @normalised .ascii "street 12".toList ≠ @normalised .ascii "sector g-11|street 12".toList :=
  ⟨Platform.digest_injective, by decide +kernel, by decide +kernel, by decide +kernel⟩

end CivicPulse
