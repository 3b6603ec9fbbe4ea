/-
  CivicPulse.Text.Lines — one JSON value on each line.

  `json.dumps` writes printable ASCII and nothing else, so a value never breaks its line,
  whatever is in its strings.
  - `dumps_printable`: every character that is written is printable.
  - `lines_stream`: a stream of lines that hold no line break is cut where they were joined.
  - `newline_not_mem_dumps`: so a stream of values is cut into them.
-/

import CivicPulse.Text.JsonProofs

namespace CivicPulse.Text

/-! ## Lines -/

/-- Each line and the line break after it. -/
def stream (ls : List Str) : Str := ls.flatMap fun l => l ++ ['\n']

/-- What stands before each line break; what stands after the last one is no line yet. -/
def lines : Str → List Str
  | [] => []
  | c :: s =>
    if c = '\n' then [] :: lines s
    else match lines s with
      | [] => []
      | l :: ls => (c :: l) :: ls

theorem lines_append {l : Str} (h : '\n' ∉ l) (s : Str) : lines (l ++ '\n' :: s) = l :: lines s := by
  induction l with
  | nil => rfl
  | cons c l ih =>
    have hc : c ≠ '\n' := fun e => h (e ▸ List.mem_cons_self)
    have hl : '\n' ∉ l := fun e => h (List.mem_cons_of_mem _ e)
    rw [List.cons_append, lines, if_neg hc, ih hl]

theorem lines_stream {ls : List Str} (h : ∀ l ∈ ls, '\n' ∉ l) : lines (stream ls) = ls := by
  induction ls with
  | nil => rfl
  | cons l ls ih =>
    have hstream : stream (l :: ls) = l ++ '\n' :: stream ls := by simp [stream]
    rw [hstream, lines_append (h l List.mem_cons_self), ih fun l' hl' => h l' (List.mem_cons_of_mem _ hl')]

/-! ## What is written -/

/-- From the space to the tilde. -/
def Printable (c : Char) : Prop := 32 ≤ c.toNat ∧ c.toNat < 127

instance (c : Char) : Decidable (Printable c) := inferInstanceAs (Decidable (_ ∧ _))

/-- A text of which every character can be looked at. -/
theorem printable_text {s : Str} (h : (s.all fun c => decide (Printable c)) = true) : ∀ c ∈ s, Printable c :=
  fun c hc => of_decide_eq_true (List.all_eq_true.mp h c hc)

/-- All characters of a text that is put together are printable if those of its parts are. -/
theorem printable_append {a b : Str} (ha : ∀ c ∈ a, Printable c) (hb : ∀ c ∈ b, Printable c) : ∀ c ∈ a ++ b, Printable c :=
  fun c hc => (List.mem_append.mp hc).elim (ha c) (hb c)

theorem printable_cons {a : Char} {b : Str} (ha : Printable a) (hb : ∀ c ∈ b, Printable c) : ∀ c ∈ a :: b, Printable c :=
  List.forall_mem_cons.mpr ⟨ha, hb⟩

theorem Printable.of_isDigit {c : Char} (h : c.isDigit = true) : Printable c := by
  simp only [Char.isDigit, Bool.and_eq_true, decide_eq_true_eq, ge_iff_le] at h
  obtain ⟨h1, h2⟩ := h
  have h1 : 48 ≤ c.toNat := h1
  have h2 : c.toNat ≤ 57 := h2
  exact ⟨by omega, by omega⟩

theorem printable_digitChar {n : Nat} (h : n < 16) : Printable (Nat.digitChar n) := by
  have : ∀ n : Fin 16, Printable (Nat.digitChar n.1) := by decide
  exact this ⟨n, h⟩

namespace Json

theorem printable_natText (n : Nat) : ∀ c ∈ natText n, Printable c := fun c hc => .of_isDigit (digits_natText c hc)

theorem printable_intText (n : Int) : ∀ c ∈ intText n, Printable c := by
  intro c hc
  rcases mem_intText hc with hc | rfl
  · exact .of_isDigit hc
  · decide

theorem printable_fixDigits (k n : Nat) : ∀ c ∈ fixDigits k n, Printable c := by
  induction k generalizing n with
  | zero => exact fun _ hc => by cases hc
  | succ k ih =>
    intro c hc
    rw [fixDigits] at hc
    rcases List.mem_append.mp hc with hc | hc
    · exact ih _ c hc
    · rw [List.mem_singleton.mp hc]
      exact printable_digitChar (by omega)

theorem printable_decText (d : Decimal) : ∀ c ∈ decText d, Printable c := by
  intro c hc
  rw [decText] at hc
  rcases List.mem_append.mp hc with hc | hc
  · rcases List.mem_append.mp hc with hc | hc
    · split at hc
      · rw [List.mem_singleton.mp hc]
        decide
      · cases hc
    · exact printable_natText _ c hc
  · rcases List.mem_cons.mp hc with rfl | hc
    · decide
    · exact printable_fixDigits _ _ c hc

theorem printable_numText (x : PyFloat) : ∀ c ∈ numText x, Printable c := by
  cases x with
  | fin d => exact printable_decText d
  | nan => exact printable_text rfl
  | inf neg =>
    cases neg with
    | false => exact printable_text rfl
    | true => exact printable_text rfl

theorem printable_uEscape (n : Nat) : ∀ c ∈ uEscape n, Printable c := by
  intro c hc
  simp only [uEscape, List.mem_cons, List.not_mem_nil, or_false] at hc
  rcases hc with rfl | rfl | rfl | rfl | rfl | rfl
  · decide
  · decide
  all_goals exact printable_digitChar (by omega)

theorem printable_escape (n : Nat) : ∀ c ∈ escape n, Printable c := by
  intro c hc
  have hshort : ∀ x, Printable x → ∀ c ∈ ['\\', x], Printable c :=
    fun x hx => printable_cons (by decide) (printable_cons hx fun _ h => by cases h)
  unfold escape at hc
  split_ifs at hc
  -- the characters with an escape of their own
  iterate 7 exact hshort _ (by decide) c hc
  · rw [List.mem_singleton.mp hc, Printable, toNat_ofNat (by simp [isScalar]; omega)]
    omega
  · obtain ⟨u, -, hc⟩ := List.mem_flatMap.mp hc
    exact printable_uEscape u c hc

theorem printable_strText (s : List CodePoint) : ∀ c ∈ strText s, Printable c := by
  intro c hc
  rcases List.mem_cons.mp hc with rfl | hc
  · decide
  · rcases List.mem_append.mp hc with hc | hc
    · obtain ⟨n, -, hc⟩ := List.mem_flatMap.mp hc
      exact printable_escape n c hc
    · rw [List.mem_singleton.mp hc]
      decide

mutual

theorem dumps_printable : ∀ v : Json, ∀ c ∈ dumps v, Printable c
  | null => by rw [dumps_null]; exact printable_text rfl
  | bool true => by rw [dumps_true]; exact printable_text rfl
  | bool false => by rw [dumps_false]; exact printable_text rfl
  | int n => by rw [dumps]; exact printable_intText n
  | float x => by rw [dumps]; exact printable_numText x
  | str s => by rw [dumps]; exact printable_strText s
  | arr l => by rw [dumps]; exact printable_cons (by decide) (dumpsElems_printable l)
  | obj l => by rw [dumps]; exact printable_cons (by decide) (dumpsMembers_printable l)

theorem dumpsElems_printable : ∀ l : List Json, ∀ c ∈ dumpsElems l, Printable c
  | [] => by rw [dumpsElems]; exact printable_text rfl
  | x :: l => by rw [dumpsElems]; exact printable_append (dumps_printable x) (dumpsMore_printable l)

theorem dumpsMore_printable : ∀ l : List Json, ∀ c ∈ dumpsMore l, Printable c
  | [] => by rw [dumpsMore]; exact printable_text rfl
  | x :: l => by
    rw [dumpsMore]
    exact printable_append (printable_text rfl) (printable_append (dumps_printable x) (dumpsMore_printable l))

theorem dumpsMembers_printable : ∀ l : List (List CodePoint × Json), ∀ c ∈ dumpsMembers l, Printable c
  | [] => by rw [dumpsMembers]; exact printable_text rfl
  | (k, x) :: l => by
    rw [dumpsMembers]
    exact printable_append (printable_strText k) (printable_append (printable_text rfl) (printable_append (dumps_printable x) (dumpsRest_printable l)))

theorem dumpsRest_printable : ∀ l : List (List CodePoint × Json), ∀ c ∈ dumpsRest l, Printable c
  | [] => by rw [dumpsRest]; exact printable_text rfl
  | (k, x) :: l => by
    rw [dumpsRest]
    exact printable_append (printable_text rfl) (printable_append (printable_strText k)
      (printable_append (printable_text rfl) (printable_append (dumps_printable x) (dumpsRest_printable l))))

end

theorem newline_not_mem_dumps (v : Json) : '\n' ∉ dumps v := fun h => absurd (dumps_printable v _ h) (by decide)

end Json

end CivicPulse.Text
