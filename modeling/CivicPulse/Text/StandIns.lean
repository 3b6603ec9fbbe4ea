/-
  CivicPulse.Text.StandIns — the two readings of a text that may hold surrogates agree.

  `blur` makes one character of all characters from the private-use area on, the stand-ins
  among them, so that both readings look the same (`view_blur`). The JSON scanner and the
  program's patterns do not tell these characters apart.
  - `Re.sub_blind`: nor does a pattern whose classes do not.
  - `loads_alike`: texts that look the same fail in the same way.
  - `loadsText_ok_iff` / `loadsText_error_iff`: so a text with surrogates is read when both
    its readings are, and where it is not, either of them tells how it fails.
-/

import CivicPulse.Text.Grammar
import CivicPulse.Text.Regex

namespace CivicPulse.Text

/-! ## Patterns -/

namespace Re

section

variable (h : Char → Char)

/-- No class of the pattern tells a character from what `h` makes of it. -/
def Blind : Re → Prop
  | set p => ∀ c, p (h c) = p c
  | lit eq w => ∀ a ∈ w, ∀ c, eq a (h c) = eq a c
  | many p => ∀ c, p (h c) = p c
  | opt r => Blind r
  | alt r s => Blind r ∧ Blind s
  | seq r s => Blind r ∧ Blind s
  | wordB w => ∀ c, w (h c) = w c
  | bos => True
  | eos => ∀ c, h c = '\n' ↔ c = '\n'

def Pos.map (q : Pos) : Pos := (q.1.map h, q.2.map h)

variable {h}

theorem endsLit_blind {eq : Char → Char → Bool} {w : Str} (hw : ∀ a ∈ w, ∀ c, eq a (h c) = eq a c) (q : Pos) :
    endsLit eq w (Pos.map h q) = (endsLit eq w q).map (Pos.map h) := by
  induction w generalizing q with
  | nil => rfl
  | cons a w ih =>
    obtain ⟨prev, _ | ⟨c, s⟩⟩ := q
    · rfl
    · show (if eq a (h c) = true then endsLit eq w (Pos.map h (some c, s)) else []) = _
      rw [hw a List.mem_cons_self c, ih (fun b hb => hw b (List.mem_cons_of_mem _ hb)), endsLit]
      split
      · rfl
      · rfl

theorem endsMany_blind {p : Char → Bool} (hp : ∀ c, p (h c) = p c) (prev : Option Char) (s : Str) :
    endsMany p (prev.map h) (s.map h) = (endsMany p prev s).map (Pos.map h) := by
  induction s generalizing prev with
  | nil => rfl
  | cons c s ih =>
    show (if p (h c) = true then endsMany p ((some c).map h) (s.map h) ++ [(prev.map h, (c :: s).map h)]
      else [(prev.map h, (c :: s).map h)]) = _
    rw [hp c, ih, endsMany]
    split
    · rw [List.map_append]
      rfl
    · rfl

theorem ends_blind {r : Re} (hr : r.Blind h) (q : Pos) : r.ends (Pos.map h q) = (r.ends q).map (Pos.map h) := by
  induction r generalizing q with
  | set p =>
    obtain ⟨prev, _ | ⟨c, s⟩⟩ := q
    · rfl
    · show (if p (h c) = true then [((some c).map h, s.map h)] else []) = _
      rw [hr c, ends]
      split
      · rfl
      · rfl
  | lit eq w => exact endsLit_blind hr q
  | many p => exact endsMany_blind hr q.1 q.2
  | opt r ih =>
    show r.ends (Pos.map h q) ++ [Pos.map h q] = _
    rw [ih hr, ends, List.map_append]
    rfl
  | alt r s ihr ihs =>
    show r.ends (Pos.map h q) ++ s.ends (Pos.map h q) = _
    rw [ihr hr.1, ihs hr.2, ends, List.map_append]
  | seq r s ihr ihs =>
    show (r.ends (Pos.map h q)).flatMap s.ends = _
    rw [ihr hr.1, ends, List.flatMap_map, List.map_flatMap]
    exact congrArg (List.flatMap · (r.ends q)) (funext fun m => ihs hr.2 m)
  | wordB w =>
    obtain ⟨prev, s⟩ := q
    have hprev : (prev.map h).any w = prev.any w := by
      cases prev with
      | none => rfl
      | some c => exact hr c
    have hhead : (s.map h).head?.any w = s.head?.any w := by
      cases s with
      | nil => rfl
      | cons c s => exact hr c
    show (if (prev.map h).any w != (s.map h).head?.any w then [Pos.map h (prev, s)] else []) = _
    rw [hprev, hhead, ends]
    split
    · rfl
    · rfl
  | bos =>
    obtain ⟨prev, s⟩ := q
    cases prev with
    | none => rfl
    | some c => rfl
  | eos =>
    obtain ⟨prev, s⟩ := q
    have hend : ((s.map h).isEmpty || s.map h == ['\n']) = (s.isEmpty || s == ['\n']) := by
      rcases s with _ | ⟨c, _ | ⟨d, s⟩⟩
      · rfl
      · rw [Bool.eq_iff_iff]
        simp [hr c]
      · simp
    show (if (s.map h).isEmpty || s.map h == ['\n'] then [Pos.map h (prev, s)] else []) = _
    rw [hend, ends]
    split
    · rfl
    · rfl

theorem matchAt_blind {r : Re} (hr : r.Blind h) (q : Pos) : r.matchAt (Pos.map h q) = (r.matchAt q).map (Pos.map h) := by
  rw [matchAt, ends_blind hr, List.head?_map]
  rfl

/-- The pattern finds the same matches. -/
theorem scan_blind {r : Re} (hr : r.Blind h) (n : Nat) (q : Pos) :
    scan r n (Pos.map h q) = (scan r n q).map (Sum.map h (List.map h)) := by
  induction n generalizing q with
  | zero => rfl
  | succ n ih =>
    obtain ⟨prev, _ | ⟨c, s⟩⟩ := q
    · rfl
    · have hmatch : r.matchAt (prev.map h, h c :: s.map h) = _ := matchAt_blind hr (prev, c :: s)
      have hnext : scan r n ((some c).map h, s.map h) = _ := ih (some c, s)
      show scan r (n + 1) (prev.map h, h c :: s.map h) = _
      unfold scan
      rw [hmatch]
      rcases r.matchAt (prev, c :: s) with _ | m
      · exact congrArg (Sum.inl (h c) :: ·) hnext
      · have hlen : (Pos.map h m).2.length = m.2.length := List.length_map h
        dsimp only [Option.map_some]
        rw [hlen, List.length_map]
        split
        · rw [ih m, List.map_cons, Sum.map_inr, List.map_take, List.map_cons]
        · exact congrArg (Sum.inl (h c) :: ·) hnext

theorem sub_blind {r : Re} (hr : r.Blind h) (s : Str) : sub r (fun _ => []) (s.map h) = (sub r (fun _ => []) s).map h := by
  have hscan : tokens r (s.map h) = (tokens r s).map (Sum.map h (List.map h)) := by
    show scan r (s.map h).length (Pos.map h (none, s)) = _
    rw [scan_blind hr, List.length_map]
    rfl
  rw [sub, hscan, sub, List.flatMap_map, List.map_flatMap]
  refine congrArg (List.flatMap · (tokens r s)) (funext fun x => ?_)
  cases x with
  | inl c => rfl
  | inr m => rfl

end

end Re

/-! ## Blurring -/

/-- One character for all from the private-use area on. -/
def blur (c : Char) : Char := if c.toNat < 0xE000 then c else Char.ofNat 0xE000

theorem blur_of_lt {c : Char} (hc : c.toNat < 0xE000) : blur c = c := if_pos hc

theorem blur_of_ge {c : Char} (hc : 0xE000 ≤ c.toNat) : blur c = Char.ofNat 0xE000 := if_neg (Nat.not_lt.mpr hc)

/-- What does not tell the characters from the private-use area on apart is blind. -/
theorem blind {α : Type} {f : Char → α} {a : α} (h : ∀ c, 0xE000 ≤ c.toNat → f c = a) (c : Char) : f (blur c) = f c := by
  by_cases hc : c.toNat < 0xE000
  · rw [blur_of_lt hc]
  · rw [Nat.not_lt] at hc
    rw [blur_of_ge hc, h c hc, h _ (by decide)]

theorem blur_eq {a : Char} (ha : a.toNat < 0xE000) (c : Char) : blur c = a ↔ c = a := by
  have := blind (f := fun c => decide (c = a)) (a := false) (fun c hc => decide_eq_false fun h => by subst h; omega) c
  exact decide_eq_decide.mp this

/-- A stand-in is blurred to the same character, whichever it is. -/
theorem standIn_blur (n : Nat) : blur (standIn 0xF000 n) = blur (standIn 0xE000 n) := by
  unfold standIn
  split
  · rfl
  · rename_i hn
    have hn : 0xD800 ≤ n ∧ (0xDFFF < n → 0x110000 ≤ n) := by simpa [isScalar] using hn
    by_cases hlt : n < 0xE000
    · have hto : ∀ base, 0xE000 ≤ base → base ≤ 0xF000 → 0xE000 ≤ (Char.ofNat (base + (n - 0xD800))).toNat := by
        intro base h1 h2
        have hv : (base + (n - 0xD800)).isValidChar := .inr (by omega)
        rw [Char.ofNat, dif_pos hv]
        show 0xE000 ≤ base + (n - 0xD800)
        omega
      rw [blur_of_ge (hto _ (by omega) (by omega)), blur_of_ge (hto _ (by omega) (by omega))]
    · have hnone : ∀ base, 0xE000 ≤ base → ¬ (base + (n - 0xD800)).isValidChar := by
        intro base hb hv
        have : base + (n - 0xD800) < 0x110000 := by
          rcases hv with h | h <;> omega
        omega
      rw [Char.ofNat, Char.ofNat, dif_neg (hnone _ (by omega)), dif_neg (hnone _ (by omega))]

theorem view_blur (s : List CodePoint) : (view 0xF000 s).map blur = (view 0xE000 s).map blur := by
  simp only [view, List.map_map]
  exact List.map_congr_left fun n _ => standIn_blur n

theorem isSpace_blur (c : Char) : isSpace (blur c) = isSpace c := by
  refine blind (a := false) (fun c hc => ?_) c
  rw [Bool.eq_false_iff]
  intro h
  have := isSpace_range h
  omega

theorem Re.eqIgnoreCase_blur {a : Char} (ha : a.toNat < 0xE000) (c : Char) : Re.eqIgnoreCase a (blur c) = Re.eqIgnoreCase a c := by
  refine blind (a := false) (fun c hc => ?_) c
  have hne : ∀ b : Char, b.toNat < 0xE000 → c ≠ b := fun b hb h => by subst h; omega
  have hlower : c.toLower = c := by
    refine dif_neg fun h => ?_
    have hZ : c.toNat ≤ 'Z'.toNat := h.2
    exact absurd (Nat.le_trans hc hZ) (by decide)
  have hac : (c == a) = false := by simpa using hne a ha
  unfold Re.eqIgnoreCase
  rw [hlower, hac]
  simp [hne 'İ' (by decide), hne 'ı' (by decide), hne 'ſ' (by decide), hne '\u212A' (by decide)]

theorem strip_blur (s : Str) : strip (s.map blur) = (strip s).map blur := by
  have hcomp : isSpace ∘ blur = isSpace := funext isSpace_blur
  simp only [strip, stripBy, List.rdropWhile, List.dropWhile_map, ← List.map_reverse, hcomp]

/-! ## The scanner -/

namespace Json

/-- Where a scan goes on, or how it failed. -/
def rest {α : Type} (r : Parse α) : Except LoadError Str := r.map Prod.snd

/-- A blurred text is scanned as the text is. -/
def Blurred {α : Type} (r r' : Parse α) : Prop := rest r' = (rest r).map (List.map blur)

section

variable {α β : Type}

theorem Blurred.map {r r' : Parse α} (f f' : α → β) (h : Blurred r r') :
    Blurred (r.map fun r => (f r.1, r.2)) (r'.map fun r => (f' r.1, r.2)) := by
  rcases r with e | ⟨v, t⟩
  · rcases r' with e' | ⟨v', t'⟩
    · exact h
    · cases h
  · rcases r' with e' | ⟨v', t'⟩
    · cases h
    · exact h

theorem Blurred.ok {v : α} {t : Str} {r' : Parse α} (h : Blurred (.ok (v, t)) r') : ∃ v', r' = .ok (v', t.map blur) := by
  rcases r' with e' | ⟨v', t'⟩
  · cases h
  · cases h
    exact ⟨v', rfl⟩

theorem Blurred.error {e : LoadError} {r' : Parse α} (h : Blurred (.error e) r') : r' = .error e := by
  rcases r' with e' | ⟨v', t'⟩
  · cases h
    rfl
  · cases h

end

theorem isWs_blur (c : Char) : isWs (blur c) = isWs c := by
  refine blind (a := false) (fun c hc => ?_) c
  rw [Bool.eq_false_iff]
  intro h
  simp only [isWs, Bool.or_eq_true, beq_iff_eq] at h
  rcases h with ((rfl | rfl) | rfl) | rfl <;> exact absurd hc (by decide)

theorem skipWs_blur (s : Str) : skipWs (s.map blur) = (skipWs s).map blur := by
  rw [skipWs, List.dropWhile_map, show isWs ∘ blur = isWs from funext isWs_blur]
  rfl

theorem isDigit_blur (c : Char) : (blur c).isDigit = c.isDigit := by
  refine blind (a := false) (fun c hc => ?_) c
  rw [Bool.eq_false_iff]
  intro h
  have h9 : '9'.toNat = 57 := rfl
  have := Char.isDigit_iff_toNat.mp h
  omega

theorem hexVal_blur (c : Char) : hexVal (blur c) = hexVal c := by
  refine blind (a := none) (fun c hc => ?_) c
  have hdigit : ¬ c.isDigit = true := by
    rw [← isDigit_blur, blur_of_ge hc]
    decide
  have hle : ∀ {a b : Char}, b.toNat < 0xE000 → ¬ (a ≤ c ∧ c ≤ b) := fun hb h => Nat.not_lt.mpr (Nat.le_trans hc (show c.toNat ≤ _ from h.2)) hb
  rw [hexVal, if_neg hdigit, if_neg (hle (by decide)), if_neg (hle (by decide))]

theorem unescape_blur (c : Char) : unescape (blur c) = unescape c := by
  refine blind (a := none) (fun c hc => ?_) c
  have hne : ∀ a : Char, a.toNat < 0xE000 → c ≠ a := fun a ha h => by subst h; omega
  unfold unescape
  rw [if_neg (hne '"' (by decide)), if_neg (hne '\\' (by decide)), if_neg (hne '/' (by decide)), if_neg (hne 'b' (by decide)),
    if_neg (hne 'f' (by decide)), if_neg (hne 'n' (by decide)), if_neg (hne 'r' (by decide)), if_neg (hne 't' (by decide))]

theorem stringBody_blur (s : Str) : Blurred (stringBody s) (stringBody (s.map blur)) := by
  fun_induction stringBody s with
  | case1 => rfl
  | case2 t => rfl
  | case3 a b c d t hhex =>
    show rest (stringBody ('\\' :: 'u' :: blur a :: blur b :: blur c :: blur d :: t.map blur)) = _
    rw [stringBody, hex4, hexVal_blur, hexVal_blur, hexVal_blur, hexVal_blur, ← hex4, hhex]
    rfl
  | case4 a b c d t u hhex ih =>
    show Blurred _ (stringBody ('\\' :: 'u' :: blur a :: blur b :: blur c :: blur d :: t.map blur))
    rw [stringBody, hex4, hexVal_blur, hexVal_blur, hexVal_blur, hexVal_blur, ← hex4, hhex]
    exact ih.map _ _
  | case5 c t hu hesc =>
    by_cases hc : c = 'u'
    · subst hc
      rcases t with _ | ⟨a, _ | ⟨b, _ | ⟨c, _ | ⟨d, t⟩⟩⟩⟩
      · rfl
      · rfl
      · rfl
      · rfl
      · exact (hu a b c d t rfl rfl).elim
    · show rest (stringBody ('\\' :: blur c :: t.map blur)) = _
      rw [stringBody, unescape_blur, hesc]
      · rfl
      · exact fun _ _ _ _ _ h => absurd ((blur_eq (by decide) c).mp h) hc
  | case6 c t hu u hesc ih =>
    have hc : c ≠ 'u' := by
      rintro rfl
      cases hesc
    show Blurred _ (stringBody ('\\' :: blur c :: t.map blur))
    rw [stringBody, unescape_blur, hesc]
    · exact ih.map _ _
    · exact fun _ _ _ _ _ h => absurd ((blur_eq (by decide) c).mp h) hc
  | case7 c t h1 h2 h3 hlt =>
    show rest (stringBody (blur c :: t.map blur)) = _
    rw [blur_of_lt (by omega), stringBody, if_pos hlt]
    · rfl
    · exact h1
    · exact fun _ _ _ _ _ h => absurd (h ▸ hlt) (by decide)
    · exact fun _ _ h => absurd (h ▸ hlt) (by decide)
  | case8 c t h1 h2 h3 hlt ih =>
    by_cases hc : c = '\\'
    · subst hc
      cases t with
      | nil => rfl
      | cons a t => exact (h3 a t rfl rfl).elim
    · have hquote : blur c ≠ '"' := fun h => h1 ((blur_eq (by decide) c).mp h)
      have hback : blur c ≠ '\\' := fun h => hc ((blur_eq (by decide) c).mp h)
      have hge : 32 ≤ (blur c).toNat := by
        by_cases h : c.toNat < 0xE000
        · rw [blur_of_lt h]
          omega
        · rw [blur_of_ge (by omega)]
          decide
      show Blurred _ (stringBody (blur c :: t.map blur))
      rw [stringBody_char hquote hback hge]
      exact ih.map _ _

theorem string_blur (s : Str) : Blurred (string s) (string (s.map blur)) := (stringBody_blur s).map _ _

/-! ## Numerals -/

theorem takeWhile_blur (s : Str) : (s.map blur).takeWhile Char.isDigit = (s.takeWhile Char.isDigit).map blur ∧
    (s.map blur).dropWhile Char.isDigit = (s.dropWhile Char.isDigit).map blur := by
  have hcomp : Char.isDigit ∘ blur = Char.isDigit := funext isDigit_blur
  rw [List.takeWhile_map, List.dropWhile_map, hcomp]
  exact ⟨rfl, rfl⟩

/-- Digits are not blurred. -/
theorem digits_blur {ds : Str} (h : ∀ c ∈ ds, c.isDigit = true) : ds.map blur = ds := by
  rw [List.map_congr_left (g := id), List.map_id]
  intro c hc
  have h9 : '9'.toNat = 57 := rfl
  have := Char.isDigit_iff_toNat.mp (h c hc)
  exact blur_of_lt (by omega)

/-- The digits at the head of a text are the blurred text's. -/
theorem run_blur (s : Str) : (s.map blur).takeWhile Char.isDigit = s.takeWhile Char.isDigit := by
  rw [(takeWhile_blur s).1]
  exact digits_blur fun c hc => List.mem_takeWhile_imp hc

theorem integer_cons {c : Char} (hc : c ≠ '0') (t : Str) : integer (c :: t) =
    if c.isDigit then some (c :: t.takeWhile Char.isDigit, t.dropWhile Char.isDigit) else none := by
  unfold integer
  split
  · rename_i h
    exact absurd (List.cons.inj h).1 hc
  · rename_i h
    cases h
    rfl
  · rename_i h
    cases h

theorem integer_blur (s : Str) : integer (s.map blur) = (integer s).map fun r => (r.1, r.2.map blur) := by
  cases s with
  | nil => rfl
  | cons c t =>
    by_cases hzero : c = '0'
    · subst hzero
      rfl
    · have hblur : blur c ≠ '0' := fun h => hzero ((blur_eq (by decide) c).mp h)
      rw [List.map_cons, integer_cons hblur, integer_cons hzero, isDigit_blur, run_blur, (takeWhile_blur t).2]
      split
      · rename_i hc
        rw [show blur c = c from (List.cons.inj (digits_blur (List.forall_mem_singleton.mpr hc))).1]
        rfl
      · rfl

theorem fraction_blur (s : Str) : fraction (s.map blur) = (fraction s).map fun r => (r.1, r.2.map blur) := by
  cases s with
  | nil => rfl
  | cons c t =>
    by_cases hpoint : c = '.'
    · subst hpoint
      show (if ((t.map blur).takeWhile Char.isDigit).isEmpty then none
        else some ((t.map blur).takeWhile Char.isDigit, (t.map blur).dropWhile Char.isDigit)) = _
      rw [run_blur, (takeWhile_blur t).2, fraction]
      split
      · rfl
      · rfl
    · have hblur : blur c ≠ '.' := fun h => hpoint ((blur_eq (by decide) c).mp h)
      have hnone : ∀ {c : Char} (t : Str), c ≠ '.' → fraction (c :: t) = none := by
        intro c t hc
        refine (fraction_none_iff _).mpr ?_
        rintro ⟨u, h, -⟩
        exact hc (List.cons.inj h).1
      rw [List.map_cons, hnone _ hblur, hnone _ hpoint]
      rfl

/-- The digits of an exponent. -/
def exponentDigits (f : Nat → Int) (u : Str) : Option (Int × Str) :=
  if (u.takeWhile Char.isDigit).isEmpty then none
  else some (f (Nat.ofDigitChars 10 (u.takeWhile Char.isDigit) 0), u.dropWhile Char.isDigit)

theorem exponentDigits_blur (f : Nat → Int) (u : Str) :
    exponentDigits f (u.map blur) = (exponentDigits f u).map fun r => (r.1, r.2.map blur) := by
  unfold exponentDigits
  rw [run_blur, (takeWhile_blur u).2]
  split
  · rfl
  · rfl

section

variable {e : Char} (he : e = 'e' ∨ e = 'E')
include he

theorem exponent_minus (u : Str) : exponent (e :: '-' :: u) = exponentDigits (fun n => -(n : Int)) u := if_pos he

theorem exponent_plus (u : Str) : exponent (e :: '+' :: u) = exponentDigits (fun n => (n : Int)) u := if_pos he

theorem exponent_bare {u : Str} (hminus : ∀ v, u ≠ '-' :: v) (hplus : ∀ v, u ≠ '+' :: v) :
    exponent (e :: u) = exponentDigits (fun n => (n : Int)) u := by
  unfold exponent
  dsimp only
  rw [if_pos he]
  split
  · exact absurd rfl (hminus _)
  · exact absurd rfl (hplus _)
  · rfl

end

theorem exponent_blur (s : Str) : exponent (s.map blur) = (exponent s).map fun r => (r.1, r.2.map blur) := by
  cases s with
  | nil => rfl
  | cons e t =>
    by_cases he : e = 'e' ∨ e = 'E'
    · have hblur : blur e = e := by
        rcases he with rfl | rfl <;> rfl
      rw [List.map_cons, hblur]
      by_cases hminus : ∃ u, t = '-' :: u
      · obtain ⟨u, rfl⟩ := hminus
        rw [exponent_minus he]
        exact (exponent_minus he _).trans (exponentDigits_blur _ u)
      · by_cases hplus : ∃ u, t = '+' :: u
        · obtain ⟨u, rfl⟩ := hplus
          rw [exponent_plus he]
          exact (exponent_plus he _).trans (exponentDigits_blur _ u)
        · rw [exponent_bare he (fun v h => hminus ⟨v, h⟩) (fun v h => hplus ⟨v, h⟩)]
          refine (exponent_bare he (fun v h => ?_) (fun v h => ?_)).trans (exponentDigits_blur _ t)
          · obtain ⟨c, u, rfl, hc, -⟩ := List.map_eq_cons_iff.mp h
            exact hminus ⟨u, by rw [(blur_eq (by decide) c).mp hc]⟩
          · obtain ⟨c, u, rfl, hc, -⟩ := List.map_eq_cons_iff.mp h
            exact hplus ⟨u, by rw [(blur_eq (by decide) c).mp hc]⟩
    · have hnone : ∀ {e : Char} (t : Str), ¬ (e = 'e' ∨ e = 'E') → exponent (e :: t) = none := by
        intro e t he
        refine (exponent_none_iff _).mpr fun ⟨_, _, _, h, he', _⟩ => he ?_
        rwa [(List.cons.inj h).1]
      have hblur : ¬ (blur e = 'e' ∨ blur e = 'E') := by
        rwa [blur_eq (by decide), blur_eq (by decide)]
      rw [List.map_cons, hnone _ hblur, hnone _ he]
      rfl

theorem number_blur (neg : Bool) (s : Str) : number neg (s.map blur) = (number neg s).map fun r => (r.1, r.2.map blur) := by
  unfold number
  rw [integer_blur]
  rcases integer s with _ | ⟨ds, t⟩
  · rfl
  · dsimp only [Option.map_some]
    rw [fraction_blur, exponent_blur]
    rcases fraction t with _ | ⟨fs, u⟩
    · rcases exponent t with _ | ⟨e, v⟩
      · dsimp only [Option.map_none]
        split
        · rfl
        · rfl
      · rfl
    · dsimp only [Option.map_some]
      rw [exponent_blur]
      rcases exponent u with _ | ⟨e, v⟩
      · rfl
      · rfl

/-- No stand-in is in a word of letters below them. -/
theorem word_low {w : Str} (h : w.all (fun a => decide (a.toNat < 0xE000)) = true) : ∀ a ∈ w, a.toNat < 0xE000 :=
  fun a ha => of_decide_eq_true (List.all_eq_true.mp h a ha)

/-- A word of the grammar stands at the head of a blurred text exactly where it stands at
    the head of the text. -/
theorem word_blur {w : Str} (hw : ∀ a ∈ w, a.toNat < 0xE000) {s u : Str} (h : s.map blur = w ++ u) :
    ∃ t, s = w ++ t ∧ u = t.map blur := by
  induction w generalizing s with
  | nil => exact ⟨s, rfl, h.symm⟩
  | cons a w ih =>
    obtain ⟨c, s, rfl, hc, hs⟩ := List.map_eq_cons_iff.mp h
    obtain ⟨t, rfl, rfl⟩ := ih (fun b hb => hw b (List.mem_cons_of_mem _ hb)) hs
    rw [(blur_eq (hw a List.mem_cons_self) c).mp hc]
    exact ⟨t, rfl, rfl⟩

/-- Under a minus sign, only `Infinity` is no numeral. -/
theorem atom_minus_number {t : Str} (h : ∀ u, t ≠ "Infinity".toList ++ u) : atom ('-' :: t) = number true t := by
  unfold atom
  split
  · cases ‹ '-' :: t = _›
  · cases ‹ '-' :: t = _›
  · cases ‹ '-' :: t = _›
  · cases ‹ '-' :: t = _›
  · cases ‹ '-' :: t = _›
  · cases ‹ '-' :: t = _›
    exact absurd rfl (h _)
  · cases ‹ '-' :: t = _›
    rfl
  · rename_i hminus
    exact absurd rfl (hminus t)

theorem atom_blur (s : Str) : atom (s.map blur) = (atom s).map fun r => (r.1, r.2.map blur) := by
  unfold atom
  split
  · obtain ⟨t, rfl, rfl⟩ := word_blur (w := "null".toList) (word_low (by decide)) ‹s.map blur = _›
    rfl
  · obtain ⟨t, rfl, rfl⟩ := word_blur (w := "true".toList) (word_low (by decide)) ‹s.map blur = _›
    rfl
  · obtain ⟨t, rfl, rfl⟩ := word_blur (w := "false".toList) (word_low (by decide)) ‹s.map blur = _›
    rfl
  · obtain ⟨t, rfl, rfl⟩ := word_blur (w := "NaN".toList) (word_low (by decide)) ‹s.map blur = _›
    rfl
  · obtain ⟨t, rfl, rfl⟩ := word_blur (w := "Infinity".toList) (word_low (by decide)) ‹s.map blur = _›
    rfl
  · obtain ⟨t, rfl, rfl⟩ := word_blur (w := "-Infinity".toList) (word_low (by decide)) ‹s.map blur = _›
    rfl
  · rename_i hno hs
    obtain ⟨t, rfl, rfl⟩ := word_blur (w := ['-']) (word_low (by decide)) hs
    show _ = (atom ('-' :: t)).map fun r => (r.1, r.2.map blur)
    rw [atom_minus_number, number_blur]
    rintro u rfl
    exact hno _ rfl
  · rename_i hnull htrue hfalse hnan hinf hneg hminus
    split
    · exact (hnull _ rfl).elim
    · exact (htrue _ rfl).elim
    · exact (hfalse _ rfl).elim
    · exact (hnan _ rfl).elim
    · exact (hinf _ rfl).elim
    · exact (hneg _ rfl).elim
    · exact (hminus _ rfl).elim
    · exact number_blur false s

/-! ## Values -/

/-- The scanner on a blurred text, at some fuel. -/
structure BlurredAt (n : Nat) : Prop where
  value : ∀ d s, Blurred (value n d s) (Json.value n d (s.map blur))
  elems : ∀ d s, Blurred (elems n d s) (Json.elems n d (s.map blur))
  members : ∀ d s, Blurred (members n d s) (Json.members n d (s.map blur))

/-- A character of the grammar is not made by blurring. -/
theorem head_blur {a : Char} (ha : a.toNat < 0xE000) {s : Str} (h : ∀ u, s ≠ a :: u) (u : Str) : s.map blur ≠ a :: u := by
  intro he
  obtain ⟨t, rfl, -⟩ := word_blur (w := [a]) (List.forall_mem_singleton.mpr ha) he
  exact h t rfl

/-- What `value` does after an opening bracket. -/
def afterBracket (n d : Nat) (s : Str) : Parse Json :=
  match skipWs s with
  | ']' :: u => .ok (arr [], u)
  | u => (elems n d u).map fun r => (arr r.1, r.2)

/-- What `value` does after an opening brace. -/
def afterBrace (n d : Nat) (s : Str) : Parse Json :=
  match skipWs s with
  | '}' :: u => .ok (obj [], u)
  | u => (members n d u).map fun r => (obj r.1, r.2)

theorem afterBracket_blur {n : Nat} (ih : BlurredAt n) (d : Nat) (s : Str) :
    Blurred (afterBracket n d s) (afterBracket n d (s.map blur)) := by
  unfold afterBracket
  rw [skipWs_blur]
  split
  · rename_i u hu
    rw [hu]
    rfl
  · rename_i hclose
    split
    · exact absurd ‹_› (head_blur (by decide) hclose _)
    · exact (ih.elems d (skipWs s)).map _ _

theorem afterBrace_blur {n : Nat} (ih : BlurredAt n) (d : Nat) (s : Str) :
    Blurred (afterBrace n d s) (afterBrace n d (s.map blur)) := by
  unfold afterBrace
  rw [skipWs_blur]
  split
  · rename_i u hu
    rw [hu]
    rfl
  · rename_i hclose
    split
    · exact absurd ‹_› (head_blur (by decide) hclose _)
    · exact (ih.members d (skipWs s)).map _ _

theorem value_blur {n : Nat} (ih : BlurredAt n) (d : Nat) (s : Str) : Blurred (value (n + 1) d s) (value (n + 1) d (s.map blur)) := by
  unfold value
  split
  · rename_i t
    exact (string_blur t).map _ _
  · rename_i t
    split
    · rfl
    · rename_i d
      exact afterBracket_blur ih d t
  · rename_i t
    split
    · rfl
    · rename_i d
      exact afterBrace_blur ih d t
  · rename_i hquote harr hobj
    split
    · exact absurd ‹_› (head_blur (by decide) hquote _)
    · exact absurd ‹_› (head_blur (by decide) harr _)
    · exact absurd ‹_› (head_blur (by decide) hobj _)
    · show rest _ = _
      rw [atom_blur]
      rcases atom s with e | ⟨v, t⟩
      · rfl
      · rfl

theorem elems_blur {n : Nat} (ih : BlurredAt n) (d : Nat) (s : Str) : Blurred (elems (n + 1) d s) (elems (n + 1) d (s.map blur)) := by
  have hvalue := ih.value d s
  unfold elems
  split
  · rename_i e he
    rw [he] at hvalue
    rw [hvalue.error]
    rfl
  · rename_i x t hx
    rw [hx] at hvalue
    obtain ⟨x', hx'⟩ := hvalue.ok
    rw [hx']
    dsimp only
    rw [skipWs_blur]
    split
    · rename_i u hu
      rw [hu]
      rfl
    · rename_i u hu
      rw [hu]
      show Blurred _ ((elems n d (skipWs (u.map blur))).map fun r => (x' :: r.1, r.2))
      rw [skipWs_blur]
      exact (ih.elems d (skipWs u)).map _ _
    · rename_i hclose hcomma
      split
      · exact absurd ‹_› (head_blur (by decide) hclose _)
      · exact absurd ‹_› (head_blur (by decide) hcomma _)
      · rfl

theorem afterColon_blur {n : Nat} (ih : BlurredAt n) (d : Nat) (k k' : List CodePoint) (v : Str) :
    Blurred (afterColon n d k v) (afterColon n d k' (v.map blur)) := by
  have hvalue := ih.value d (skipWs v)
  unfold afterColon
  rw [skipWs_blur]
  split
  · rename_i e he
    rw [he] at hvalue
    rw [hvalue.error]
    rfl
  · rename_i x t hx
    rw [hx] at hvalue
    obtain ⟨x', hx'⟩ := hvalue.ok
    rw [hx']
    dsimp only
    rw [skipWs_blur]
    split
    · rename_i u hu
      rw [hu]
      rfl
    · rename_i u hu
      rw [hu]
      show Blurred _ ((members n d (skipWs (u.map blur))).map fun r => ((k', x') :: r.1, r.2))
      rw [skipWs_blur]
      exact (ih.members d (skipWs u)).map _ _
    · rename_i hclose hcomma
      split
      · exact absurd ‹_› (head_blur (by decide) hclose _)
      · exact absurd ‹_› (head_blur (by decide) hcomma _)
      · rfl

/-- What `members` does after a quote. -/
def afterQuote (n d : Nat) (s : Str) : Parse (List (List CodePoint × Json)) :=
  match string s with
  | .error e => .error e
  | .ok (k, u) =>
    match skipWs u with
    | ':' :: v => afterColon n d k v
    | _ => .error .decode

theorem afterQuote_blur {n : Nat} (ih : BlurredAt n) (d : Nat) (s : Str) :
    Blurred (afterQuote n d s) (afterQuote n d (s.map blur)) := by
  have hkey := string_blur s
  unfold afterQuote
  split
  · rename_i e he
    rw [he] at hkey
    rw [hkey.error]
    rfl
  · rename_i k u hk
    rw [hk] at hkey
    obtain ⟨k', hk'⟩ := hkey.ok
    rw [hk']
    dsimp only
    rw [skipWs_blur]
    split
    · rename_i v hv
      rw [hv]
      exact afterColon_blur ih d k k' v
    · rename_i hcolon
      split
      · exact absurd ‹_› (head_blur (by decide) hcolon _)
      · rfl

theorem members_blur {n : Nat} (ih : BlurredAt n) (d : Nat) (s : Str) :
    Blurred (members (n + 1) d s) (members (n + 1) d (s.map blur)) := by
  unfold members
  split
  · rename_i t
    exact afterQuote_blur ih d t
  · rename_i hquote
    split
    · exact absurd ‹_› (head_blur (by decide) hquote _)
    · rfl

theorem blurredAt (n : Nat) : BlurredAt n := by
  induction n with
  | zero => exact ⟨fun _ _ => rfl, fun _ _ => rfl, fun _ _ => rfl⟩
  | succ n ih => exact ⟨value_blur ih, elems_blur ih, members_blur ih⟩

/-! ## Whole texts -/

theorem loads_blur (limit : Nat) (s : Str) : (loads limit (s.map blur)).map (fun _ => ()) = (loads limit s).map fun _ => () := by
  have hvalue := (blurredAt (2 * s.length + 2)).value limit (skipWs s)
  unfold loads
  rw [List.length_map, skipWs_blur]
  rcases hr : value (2 * s.length + 2) limit (skipWs s) with e | ⟨v, t⟩
  · rw [hr] at hvalue
    rw [hvalue.error]
  · rw [hr] at hvalue
    obtain ⟨v', hv'⟩ := hvalue.ok
    rw [hv']
    dsimp only
    rw [skipWs_blur, List.isEmpty_map]
    split
    · rfl
    · rfl

/-- Texts that look the same once blurred fail in the same way, or both do not. -/
theorem loads_alike (limit : Nat) {s s' : Str} (h : s'.map blur = s.map blur) :
    (loads limit s').map (fun _ => ()) = (loads limit s).map fun _ => () := by
  rw [← loads_blur, h, loads_blur]

/-- A text with surrogates is this value: both its readings are values, which merge to it. -/
def Denotes (limit : Nat) (s : List CodePoint) (v : Json) : Prop :=
  ∃ x y, Reads limit (view 0xE000 s) x ∧ Reads limit (view 0xF000 s) y ∧ v = merge x y

theorem loadsText_ok_iff {limit : Nat} {s : List CodePoint} {v : Json} : loadsText limit id s = .ok v ↔ Denotes limit s v := by
  unfold Denotes loadsText
  simp only [← loads_ok_iff, id]
  generalize loads limit (view 0xE000 s) = r, loads limit (view 0xF000 s) = r'
  rcases r with e | x
  · exact iff_of_false (fun h => by cases h) fun ⟨_, _, h, _⟩ => by cases h
  · rcases r' with e | y
    · exact iff_of_false (fun h => by cases h) fun ⟨_, _, _, h, _⟩ => by cases h
    · constructor
      · intro h
        cases h
        exact ⟨x, y, rfl, rfl, rfl⟩
      · rintro ⟨_, _, hx, hy, rfl⟩
        cases hx
        cases hy
        rfl

section

variable {limit : Nat} {f : Str → Str} (hf : ∀ s, f (s.map blur) = (f s).map blur)
include hf

theorem loads_views (s : List CodePoint) : (loads limit (f (view 0xF000 s))).map (fun _ => ()) =
    (loads limit (f (view 0xE000 s))).map fun _ => () :=
  loads_alike limit (by rw [← hf, ← hf, view_blur])

/-- How `loads` fails on a text with surrogates: as on either of its readings. -/
theorem loadsText_error_iff {s : List CodePoint} {e : LoadError} :
    loadsText limit f s = .error e ↔ loads limit (f (view 0xE000 s)) = .error e := by
  have hviews : (loads limit (f (view 0xF000 s))).map (fun _ => ()) = (loads limit (f (view 0xE000 s))).map fun _ => () :=
    loads_views hf s
  unfold loadsText
  generalize loads limit (f (view 0xE000 s)) = r, loads limit (f (view 0xF000 s)) = r' at hviews ⊢
  rcases r with e' | x
  · exact Iff.rfl
  · rcases r' with e' | y
    · cases hviews
    · exact iff_of_false (fun h => by cases h) fun h => by cases h

end

end Json

end CivicPulse.Text
