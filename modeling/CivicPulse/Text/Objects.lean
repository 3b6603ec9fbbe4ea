/-
  CivicPulse.Text.Objects — the text of a JSON object stands between braces.

  `loads` reads a value and leaves the text after it. What each part of the scanner leaves
  is an end of what it was given (`scan_rest`), and of an object's members it leaves what
  comes after a `}`.
  - `braced_iff`: a text is braced exactly when either of its readings is.
  - `braced_of_object`: every text that `loads` reads as an object is braced.
  - `dumps_braces`: so is what `dumps` writes for one.
-/

import CivicPulse.Text.CodePoints

namespace CivicPulse.Text

/-- Stripped, it begins with `{` and ends with `}`. -/
structure Braced (s : List CodePoint) : Prop where
  opened : (stripCodes s).head? = some '{'.toNat
  closed : (stripCodes s).getLast? = some '}'.toNat

theorem braced_iff {base : Nat} (hb : 0xE000 ≤ base) {s : List CodePoint} :
    Braced s ↔ ∃ m, strip (view base s) = '{' :: (m ++ ['}']) := by
  have hopen := standIn_eq hb (c := '{') (by decide) (by decide)
  have hclose := standIn_eq hb (c := '}') (by decide) (by decide)
  rw [← view_stripCodes hb]
  constructor
  · intro h
    obtain ⟨t, ht⟩ := List.head?_eq_some_iff.mp h.opened
    obtain ⟨u, hu⟩ := List.getLast?_eq_some_iff.mp h.closed
    rcases u with _ | ⟨n, u⟩
    · rw [ht] at hu
      cases hu
    · obtain rfl : '{'.toNat = n := (List.cons.inj (ht.symm.trans hu)).1
      refine ⟨view base u, ?_⟩
      rw [hu]
      simp only [view, List.cons_append, List.map_cons, List.map_append, List.map_nil, (hopen _).mpr rfl, (hclose _).mpr rfl]
  · intro h
    obtain ⟨m, hm⟩ := h
    obtain ⟨n, t, hs, hn, ht⟩ := List.map_eq_cons_iff.mp hm
    obtain ⟨u, v, rfl, -, hv⟩ := List.map_eq_append_iff.mp ht
    obtain ⟨k, w, rfl, hk, hw⟩ := List.map_eq_cons_iff.mp hv
    obtain rfl := List.map_eq_nil_iff.mp hw
    rw [(hopen n).mp hn, (hclose k).mp hk] at hs
    exact ⟨by rw [hs]; rfl, by rw [hs, ← List.cons_append, List.getLast?_concat]⟩

namespace Json

/-! ## What a scan leaves -/

theorem map_ok {ε α β : Type} {f : α → β} {x : Except ε α} {b : β} (h : x.map f = .ok b) : ∃ a, x = .ok a ∧ f a = b := by
  rcases x with e | a
  · cases h
  · exact ⟨a, rfl, Except.ok.inj h⟩

theorem skipWs_rest (s : Str) : skipWs s <:+ s := List.dropWhile_suffix isWs

theorem stringBody_rest {s t : Str} {l : List Nat} (h : stringBody s = .ok (l, t)) : t <:+ s := by
  fun_induction stringBody s generalizing l t with
  | case1 => cases h
  | case2 u =>
    cases h
    exact List.suffix_cons _ _
  | case3 => cases h
  | case4 a b c d u n hn ih =>
    obtain ⟨r, hr, he⟩ := map_ok h
    cases he
    exact (ih hr).trans ⟨['\\', 'u', a, b, c, d], rfl⟩
  | case5 => cases h
  | case6 c u hc n hn ih =>
    obtain ⟨r, hr, he⟩ := map_ok h
    cases he
    exact (ih hr).trans ⟨['\\', c], rfl⟩
  | case7 => cases h
  | case8 c u hq he hs hc ih =>
    obtain ⟨r, hr, he⟩ := map_ok h
    cases he
    exact (ih hr).trans (List.suffix_cons c u)

theorem string_rest {s t : Str} {l : List CodePoint} (h : string s = .ok (l, t)) : t <:+ s := by
  obtain ⟨r, hr, he⟩ := map_ok h
  cases he
  exact stringBody_rest hr

theorem integer_rest {s ds t : Str} (h : integer s = some (ds, t)) : t <:+ s := by
  unfold integer at h
  split at h
  · cases h
    exact List.suffix_cons _ _
  · split at h
    · cases h
      exact (List.dropWhile_suffix _).trans (List.suffix_cons _ _)
    · cases h
  · cases h

theorem fraction_rest {s fs t : Str} (h : fraction s = some (fs, t)) : t <:+ s := by
  unfold fraction at h
  split at h
  · dsimp only at h
    split at h
    · cases h
    · cases h
      exact (List.dropWhile_suffix _).trans (List.suffix_cons _ _)
  · cases h

theorem exponent_rest {s t : Str} {k : Int} (h : exponent s = some (k, t)) : t <:+ s := by
  have hdigits : ∀ (neg : Bool) (u : Str), (if (u.takeWhile Char.isDigit).isEmpty then none else
      some (if neg then -(Nat.ofDigitChars 10 (u.takeWhile Char.isDigit) 0 : Int)
        else Nat.ofDigitChars 10 (u.takeWhile Char.isDigit) 0, u.dropWhile Char.isDigit)) = some (k, t) → t <:+ u := by
    intro neg u h
    split at h
    · cases h
    · cases h
      exact List.dropWhile_suffix _
  unfold exponent at h
  split at h
  · rename_i e u
    split at h
    · refine List.IsSuffix.trans ?_ (List.suffix_cons e u)
      dsimp only at h
      split at h
      · exact (hdigits _ _ h).trans (List.suffix_cons _ _)
      · exact (hdigits _ _ h).trans (List.suffix_cons _ _)
      · exact hdigits _ _ h
    · cases h
  · cases h

theorem number_rest {neg : Bool} {s t : Str} {v : Json} (h : number neg s = .ok (v, t)) : t <:+ s := by
  unfold number at h
  split at h
  · cases h
  · rename_i ds u hi
    refine List.IsSuffix.trans ?_ (integer_rest hi)
    split at h
    · rename_i fs w hf
      refine List.IsSuffix.trans ?_ (fraction_rest hf)
      dsimp only at h
      split at h
      · rename_i k x he
        cases h
        exact exponent_rest he
      · cases h
        exact List.suffix_rfl
    · split at h
      · rename_i k x he
        cases h
        exact exponent_rest he
      · split at h
        · cases h
        · cases h
          exact List.suffix_rfl

theorem atom_rest {s t : Str} {v : Json} (h : atom s = .ok (v, t)) : t <:+ s := by
  have hword : ∀ {x : Json} {u : Str} (w : Str), (Except.ok (x, u) : Parse Json) = .ok (v, t) → t <:+ w ++ u := by
    intro x u w he
    cases he
    exact List.suffix_append w _
  unfold atom at h
  split at h
  · exact hword "null".toList h
  · exact hword "true".toList h
  · exact hword "false".toList h
  · exact hword "NaN".toList h
  · exact hword "Infinity".toList h
  · exact hword "-Infinity".toList h
  · exact (number_rest h).trans (List.suffix_cons _ _)
  · exact number_rest h

/-- What a scan with fuel `n` leaves of a text is an end of it; of members, the one after a
    brace. -/
structure RestAt (n : Nat) : Prop where
  value : ∀ {d : Nat} {s t : Str} {v : Json}, value n d s = .ok (v, t) → t <:+ s
  elems : ∀ {d : Nat} {s t : Str} {l : List Json}, elems n d s = .ok (l, t) → t <:+ s
  members : ∀ {d : Nat} {s t : Str} {l : List (List CodePoint × Json)}, members n d s = .ok (l, t) → '}' :: t <:+ s

theorem value_rest {n : Nat} (ih : RestAt n) {d : Nat} {s t : Str} {v : Json} (h : value (n + 1) d s = .ok (v, t)) : t <:+ s := by
  unfold value at h
  split at h
  · obtain ⟨r, hr, he⟩ := map_ok h
    cases he
    exact (string_rest hr).trans (List.suffix_cons _ _)
  · rename_i u
    refine List.IsSuffix.trans ?_ (List.suffix_cons '[' u)
    split at h
    · cases h
    · refine List.IsSuffix.trans ?_ (skipWs_rest u)
      split at h
      · rename_i x hx
        cases h
        rw [hx]
        exact List.suffix_cons _ _
      · obtain ⟨r, hr, he⟩ := map_ok h
        cases he
        exact ih.elems hr
  · rename_i u
    refine List.IsSuffix.trans ?_ (List.suffix_cons '{' u)
    split at h
    · cases h
    · refine List.IsSuffix.trans ?_ (skipWs_rest u)
      split at h
      · rename_i x hx
        cases h
        rw [hx]
        exact List.suffix_cons _ _
      · obtain ⟨r, hr, he⟩ := map_ok h
        cases he
        exact (List.suffix_cons _ _).trans (ih.members hr)
  · exact atom_rest h

theorem elems_rest {n : Nat} (ih : RestAt n) {d : Nat} {s t : Str} {l : List Json} (h : elems (n + 1) d s = .ok (l, t)) :
    t <:+ s := by
  unfold elems at h
  split at h
  · cases h
  · rename_i x u hx
    refine List.IsSuffix.trans ?_ (ih.value hx)
    refine List.IsSuffix.trans ?_ (skipWs_rest u)
    split at h
    · rename_i w hw
      cases h
      rw [hw]
      exact List.suffix_cons _ _
    · rename_i w hw
      obtain ⟨r, hr, he⟩ := map_ok h
      cases he
      rw [hw]
      exact ((ih.elems hr).trans (skipWs_rest w)).trans (List.suffix_cons _ _)
    · cases h

theorem members_rest {n : Nat} (ih : RestAt n) {d : Nat} {s t : Str} {l : List (List CodePoint × Json)}
    (h : members (n + 1) d s = .ok (l, t)) : '}' :: t <:+ s := by
  unfold members at h
  split at h
  · rename_i u
    refine List.IsSuffix.trans ?_ (List.suffix_cons '"' u)
    split at h
    · cases h
    · rename_i k w hk
      refine List.IsSuffix.trans ?_ (string_rest hk)
      refine List.IsSuffix.trans ?_ (skipWs_rest w)
      split at h
      · rename_i y hy
        rw [hy]
        refine List.IsSuffix.trans ?_ (List.suffix_cons ':' y)
        refine List.IsSuffix.trans ?_ (skipWs_rest y)
        split at h
        · cases h
        · rename_i x z hx
          refine List.IsSuffix.trans ?_ (ih.value hx)
          refine List.IsSuffix.trans ?_ (skipWs_rest z)
          split at h
          · rename_i w' hw
            cases h
            rw [hw]
          · rename_i w' hw
            obtain ⟨r, hr, he⟩ := map_ok h
            cases he
            rw [hw]
            exact ((ih.members hr).trans (skipWs_rest w')).trans (List.suffix_cons _ _)
          · cases h
      · cases h
  · cases h

theorem scan_rest (n : Nat) : RestAt n := by
  induction n with
  | zero => exact ⟨fun h => (by cases h), fun h => (by cases h), fun h => (by cases h)⟩
  | succ n ih => exact ⟨value_rest ih, elems_rest ih, members_rest ih⟩

/-! ## Objects -/

/-- No value but an object or an array is one. -/
theorem atom_leaf {s t : Str} {l : List (List CodePoint × Json)} : atom s ≠ .ok (obj l, t) := by
  have hnumber : ∀ (neg : Bool) (u : Str), number neg u ≠ .ok (obj l, t) := by
    intro neg u h
    unfold number at h
    split at h
    · cases h
    · split at h
      · dsimp only at h
        split at h <;> cases h
      · split at h
        · cases h
        · split at h <;> cases h
  intro h
  unfold atom at h
  split at h
  all_goals first | exact hnumber _ _ h | cases h

/-- An object's text, from its brace to its brace. -/
theorem value_braces {n d : Nat} {s t : Str} {l : List (List CodePoint × Json)} (h : value n d s = .ok (obj l, t)) :
    ∃ m, s = '{' :: (m ++ '}' :: t) := by
  rcases n with _ | n
  · cases h
  · unfold value at h
    split at h
    · obtain ⟨r, -, he⟩ := map_ok h
      cases he
    · split at h
      · cases h
      · split at h
        · cases h
        · obtain ⟨r, -, he⟩ := map_ok h
          cases he
    · rename_i u
      have hbrace : '}' :: t <:+ u := by
        refine List.IsSuffix.trans ?_ (skipWs_rest u)
        split at h
        · cases h
        · split at h
          · rename_i x hx
            cases h
            rw [hx]
          · obtain ⟨r, hr, he⟩ := map_ok h
            cases he
            exact (scan_rest n).members hr
      obtain ⟨m, rfl⟩ := hbrace
      exact ⟨m, rfl⟩
    · exact absurd h atom_leaf

theorem isSpace_of_isWs {c : Char} (h : isWs c = true) : isSpace c = true := by
  simp only [isWs, Bool.or_eq_true, beq_iff_eq] at h
  rcases h with ((rfl | rfl) | rfl) | rfl <;> decide

theorem loads_braces {limit : Nat} {s : Str} {l : List (List CodePoint × Json)} (h : loads limit s = .ok (obj l)) :
    ∃ m, strip s = '{' :: (m ++ ['}']) := by
  unfold loads at h
  split at h
  · cases h
  · rename_i v t hv
    split at h
    · rename_i ht
      cases h
      obtain ⟨m, hm⟩ := value_braces hv
      have hlead : ∀ c ∈ s.takeWhile isWs, isSpace c = true := fun c hc => isSpace_of_isWs (List.mem_takeWhile_imp hc)
      have htrail : ∀ c ∈ t, isSpace c = true := fun c hc =>
        isSpace_of_isWs (List.dropWhile_eq_nil_iff.mp (List.isEmpty_iff.mp ht) c hc)
      have hs : s = s.takeWhile isWs ++ ('{' :: (m ++ ['}']) ++ t) := by
        calc s = s.takeWhile isWs ++ skipWs s := List.takeWhile_append_dropWhile.symm
          _ = _ := by rw [hm, List.cons_append, List.append_assoc, List.singleton_append]
      refine ⟨m, ?_⟩
      rw [hs, strip, stripBy_append hlead htrail, stripBy_self (by decide) (by decide)]
    · cases h

theorem merge_obj {x y : Json} {l : List (List CodePoint × Json)} (h : merge x y = obj l) : ∃ l', x = obj l' := by
  cases x with
  | obj l' => exact ⟨l', rfl⟩
  | _ => cases y <;> cases h

/-- However deep the scanner may nest. -/
theorem braced_of_object {limit : Nat} {s : List CodePoint} {l : List (List CodePoint × Json)}
    (h : loadsText limit id s = .ok (obj l)) : Braced s := by
  unfold loadsText at h
  rcases hx : loads limit (view 0xE000 s) with e | x
  · rw [id, hx] at h
    cases h
  · rcases hy : loads limit (view 0xF000 s) with e | y
    · rw [id, id, hx, hy] at h
      cases h
    · rw [id, id, hx, hy] at h
      obtain ⟨l', rfl⟩ := merge_obj (Except.ok.inj h)
      exact (braced_iff (Nat.le_refl _)).mpr (loads_braces hx)

/-! ## What `dumps` writes -/

theorem dumpsRest_last (l : List (List CodePoint × Json)) : ∃ m, dumpsRest l = m ++ ['}'] := by
  induction l with
  | nil => exact ⟨[], by rw [dumpsRest]; rfl⟩
  | cons e l ih =>
    obtain ⟨k, x⟩ := e
    obtain ⟨m, hm⟩ := ih
    refine ⟨", ".toList ++ (strText k ++ (": ".toList ++ (dumps x ++ m))), ?_⟩
    rw [dumpsRest, hm]
    simp only [List.append_assoc]

theorem dumps_braces (l : List (List CodePoint × Json)) : ∃ m, dumps (obj l) = '{' :: (m ++ ['}']) := by
  rcases l with _ | ⟨⟨k, x⟩, l⟩
  · exact ⟨[], by rw [dumps, dumpsMembers]; rfl⟩
  · obtain ⟨m, hm⟩ := dumpsRest_last l
    refine ⟨strText k ++ (": ".toList ++ (dumps x ++ m)), ?_⟩
    rw [dumps, dumpsMembers, hm]
    simp only [List.append_assoc]

end Json

end CivicPulse.Text
