/-
  CivicPulse.Frontend.Form — the complaint form's own validation (`src/validation.ts`) and
  the body it submits (`src/pages/SubmitPage.tsx`), beside the server's validation.

  The form counts UTF-16 code units and trims what `String.prototype.trim` does; the server
  counts characters and strips `White_Space`.
  - `jsLength_eq`: a text has one code unit more for each character beyond U+FFFF.
  - `isWhiteSpace_iff`: the two sides trim the same characters but U+0085 and U+FEFF.
  - `edge_eq_zero`: a trimmed field loses nothing more on the server unless it begins or ends
    with U+0085, so `agrees_of_plain`: without that and beyond-U+FFFF characters both agree.
  - `form_mirrors_iff`: the form's errors are the server's exactly when no field lies between
    the two ways of counting; `form_passes_short_text` is a field that does.
-/

import CivicPulse.Schemas

namespace CivicPulse.Frontend

open Text

/-! ## JavaScript's strings -/

/-- `WhiteSpace` and `LineTerminator`. -/
def isJsSpace (c : Char) : Bool :=
  let n := c.toNat
  (9 ≤ n && n ≤ 13) || n == 0x20 || n == 0xA0 || n == 0xFEFF || n == 0x1680 || (0x2000 ≤ n && n ≤ 0x200A) ||
    n == 0x2028 || n == 0x2029 || n == 0x202F || n == 0x205F || n == 0x3000

/-- `s.trim()`. -/
def trim (s : Str) : Str := stripBy isJsSpace s

/-- `s.length`, in UTF-16 code units. -/
def jsLength (s : Str) : Nat := (s.map fun c => if c.toNat < 0x10000 then 1 else 2).sum

/-! ## The form -/

structure Form where
  text : Str
  location : Str
  reporterContact : Str

inductive Field where
  | text
  | location
  | reporterContact
  deriving DecidableEq, Repr

def Field.name : Field → Str
  | text => "text".toList
  | location => "location".toList
  | reporterContact => "reporter_contact".toList

def Form.get (v : Form) : Field → Str
  | .text => v.text
  | .location => v.location
  | .reporterContact => v.reporterContact

structure Limits where
  min : Nat
  max : Nat

def LIMITS : Field → Limits
  | .text => ⟨10, 2000⟩
  | .location => ⟨3, 200⟩
  | .reporterContact => ⟨0, 200⟩

structure FormErrors where
  text : Option Str
  location : Option Str
  reporterContact : Option Str
  deriving DecidableEq

def FormErrors.get (e : FormErrors) : Field → Option Str
  | .text => e.text
  | .location => e.location
  | .reporterContact => e.reporterContact

def validateComplaint (v : Form) : FormErrors where
  text :=
    if jsLength (trim v.text) < (LIMITS .text).min then
      some ("Please describe the problem in at least ".toList ++ natText (LIMITS .text).min ++ " characters.".toList)
    else if (LIMITS .text).max < jsLength (trim v.text) then
      some ("Please keep it under ".toList ++ natText (LIMITS .text).max ++ " characters.".toList)
    else none
  location :=
    if jsLength (trim v.location) < (LIMITS .location).min then
      some ("Location needs at least ".toList ++ natText (LIMITS .location).min ++ " characters.".toList)
    else if (LIMITS .location).max < jsLength (trim v.location) then
      some ("Location must be under ".toList ++ natText (LIMITS .location).max ++ " characters.".toList)
    else none
  reporterContact :=
    if (LIMITS .reporterContact).max < jsLength (trim v.reporterContact) then
      some ("Contact must be under ".toList ++ natText (LIMITS .reporterContact).max ++ " characters.".toList)
    else none

/-- What `onSubmit` sends. -/
def body (v : Form) : Json :=
  .obj [(codes "text".toList, .str (codes (trim v.text))), (codes "location".toList, .str (codes (trim v.location))),
    (codes "reporter_contact".toList,
      if (trim v.reporterContact).isEmpty then .null else .str (codes (trim v.reporterContact)))]

/-- The server finds a fault with the field. -/
def Rejects (b : Json) (f : Field) : Prop := ∃ fs, ComplaintCreate.modelValidate b = .error fs ∧ codes f.name ∈ fs

/-! ## Two ways of counting -/

/-- The characters that take two code units. -/
def wide (s : Str) : Nat := s.countP fun c => decide (0x10000 ≤ c.toNat)

/-- How many characters the server strips from a field that the form has trimmed. -/
def edge (s : Str) : Nat := (trim s).length - (stripBy isWhiteSpace (trim s)).length

theorem jsLength_eq (s : Str) : jsLength s = s.length + wide s := by
  induction s with
  | nil => rfl
  | cons c s ih =>
    have hs : jsLength (c :: s) = (if c.toNat < 0x10000 then 1 else 2) + jsLength s := by simp [jsLength]
    have hw : wide (c :: s) = wide s + if decide (0x10000 ≤ c.toNat) then 1 else 0 := List.countP_cons
    rw [hs, ih, hw, List.length_cons]
    by_cases hc : c.toNat < 0x10000
    · simp only [hc, if_true, show ¬ 0x10000 ≤ c.toNat by omega, decide_false, Bool.false_eq_true, if_false]
      omega
    · simp only [hc, if_false, show 0x10000 ≤ c.toNat by omega, decide_true, if_true]
      omega

theorem length_stripped (s : Str) : (stripBy isWhiteSpace (trim s)).length = (trim s).length - edge s := by
  have := length_stripBy_le (p := isWhiteSpace) (trim s)
  unfold edge
  omega

theorem isWhiteSpace_iff (c : Char) : isWhiteSpace c = true ↔ (isJsSpace c = true ∧ c.toNat ≠ 0xFEFF) ∨ c.toNat = 0x85 := by
  simp only [isWhiteSpace, isSpace, isJsSpace, Bool.and_eq_true, Bool.or_eq_true, Bool.not_eq_true', Bool.and_eq_false_iff,
    decide_eq_true_eq, decide_eq_false_iff_not, beq_iff_eq]
  omega

/-- Only U+0085 is stripped by the server after the form has trimmed. -/
theorem edge_eq_zero {s : Str} (hhead : ∀ c, (trim s).head? = some c → c.toNat ≠ 0x85)
    (hlast : ∀ c, (trim s).getLast? = some c → c.toNat ≠ 0x85) : edge s = 0 := by
  obtain ⟨hfirst, hfinal⟩ := stripBy_eq_self_iff.mp (stripBy_idem (p := isJsSpace) s)
  have hkeep : ∀ c, isJsSpace c = false → c.toNat ≠ 0x85 → isWhiteSpace c = false := by
    intro c hc hne
    rw [Bool.eq_false_iff]
    intro hw
    rcases (isWhiteSpace_iff c).mp hw with h | h
    · rw [hc] at h
      cases h.1
    · exact hne h
  have hself : stripBy isWhiteSpace (trim s) = trim s :=
    stripBy_eq_self_iff.mpr ⟨fun c hc => hkeep c (hfirst c hc) (hhead c hc), fun c hc => hkeep c (hfinal c hc) (hlast c hc)⟩
  rw [edge, hself, Nat.sub_self]

/-! ## The server's side -/

theorem boundedStr_codes (lo hi : Nat) (s : Str) :
    boundedStr lo hi (.str (codes s)) = none ↔
      ¬ (lo ≤ (stripBy isWhiteSpace s).length ∧ (stripBy isWhiteSpace s).length ≤ hi) := by
  simp only [boundedStr, strOf_codes]
  split
  · rename_i h
    simp [h]
  · rename_i h
    simp [h]

/-- The server's answer to a body with the three fields. -/
theorem rejects_obj (t l c : Json) (f : Field) :
    Rejects (.obj [(codes "text".toList, t), (codes "location".toList, l), (codes "reporter_contact".toList, c)]) f ↔
      match f with
      | .text => boundedStr TEXT_MIN TEXT_MAX t = none
      | .location => boundedStr LOCATION_MIN LOCATION_MAX l = none
      | .reporterContact => ComplaintCreate.contactField (some c) = none := by
  obtain ⟨items, hitems⟩ : ∃ items : List (List CodePoint × Json), items = [(codes "text".toList, t), (codes "location".toList, l),
    (codes "reporter_contact".toList, c)] := ⟨_, rfl⟩
  have ht : Json.lookup "text".toList items = some t := by subst hitems; rfl
  have hl : Json.lookup "location".toList items = some l := by subst hitems; rfl
  have hc : Json.lookup "reporter_contact".toList items = some c := by subst hitems; rfl
  have he : (items.map Prod.fst).filter (fun k => !(ComplaintCreate.fields.map codes).contains k) = [] := by
    subst hitems; rfl
  rw [← hitems]
  have hname : codes f.name = match f with
      | .text => codes "text".toList
      | .location => codes "location".toList
      | .reporterContact => codes "reporter_contact".toList := by cases f <;> rfl
  simp only [Rejects, ComplaintCreate.modelValidate, ht, hl, hc, he, hname, Option.bind_some]
  clear hname
  have hnames : codes "text".toList ≠ codes "location".toList ∧ codes "text".toList ≠ codes "reporter_contact".toList ∧
      codes "location".toList ≠ codes "reporter_contact".toList := by decide
  obtain ⟨h1, h2, h3⟩ := hnames
  generalize codes "text".toList = kt at h1 h2 ⊢
  generalize codes "location".toList = kl at h1 h3 ⊢
  generalize codes "reporter_contact".toList = kc at h2 h3 ⊢
  -- the faults are the fields that are none; there is one unless the body is accepted
  rcases boundedStr TEXT_MIN TEXT_MAX t with _ | x <;> rcases boundedStr LOCATION_MIN LOCATION_MAX l with _ | y <;>
    rcases ComplaintCreate.contactField (some c) with _ | z <;> cases f <;>
    simp [h1, h2, h3, h1.symm, h2.symm, h3.symm]

theorem contactField_trim (s : Str) :
    ComplaintCreate.contactField (some (if s.isEmpty then .null else .str (codes s))) = none ↔
      boundedStr 0 CONTACT_MAX (.str (codes s)) = none := by
  rcases s with _ | ⟨c, s⟩
  · simp [ComplaintCreate.contactField, boundedStr_codes, stripBy]
  · simp [ComplaintCreate.contactField]

theorem rejects_iff (v : Form) (f : Field) : Rejects (body v) f ↔
    ¬ ((LIMITS f).min ≤ (trim (v.get f)).length - edge (v.get f) ∧ (trim (v.get f)).length - edge (v.get f) ≤ (LIMITS f).max) := by
  rw [body, rejects_obj, ← length_stripped]
  cases f with
  | text => exact boundedStr_codes _ _ _
  | location => exact boundedStr_codes _ _ _
  | reporterContact => exact (contactField_trim _).trans (boundedStr_codes _ _ _)

theorem validateComplaint_iff (v : Form) (f : Field) : ((validateComplaint v).get f).isSome = true ↔
    (trim (v.get f)).length + wide (trim (v.get f)) < (LIMITS f).min ∨
      (LIMITS f).max < (trim (v.get f)).length + wide (trim (v.get f)) := by
  rw [← jsLength_eq]
  cases f with
  | text =>
    simp only [validateComplaint, FormErrors.get, Form.get]
    split
    · simp [*]
    · split <;> simp [*]
  | location =>
    simp only [validateComplaint, FormErrors.get, Form.get]
    split
    · simp [*]
    · split <;> simp [*]
  | reporterContact =>
    simp only [validateComplaint, FormErrors.get, Form.get]
    split
    · simp [*]
    · rename_i h
      simpa [LIMITS] using h

/-! ## Where they agree -/

/-- The field is not one that the form counts as long enough and the server as too short,
    nor one that the form counts as too long and the server as within its limits. -/
def Agrees (f : Field) (s : Str) : Prop :=
  ¬ ((trim s).length - edge s < (LIMITS f).min ∧ (LIMITS f).min ≤ (trim s).length + wide (trim s) ∧
      (trim s).length + wide (trim s) ≤ (LIMITS f).max) ∧
    ¬ ((LIMITS f).min ≤ (trim s).length - edge s ∧ (trim s).length - edge s ≤ (LIMITS f).max ∧
      (LIMITS f).max < (trim s).length + wide (trim s))

/-- A field of characters up to U+FFFF that does not begin or end with U+0085. -/
theorem agrees_of_plain (f : Field) {s : Str} (hwide : ∀ c ∈ trim s, c.toNat < 0x10000)
    (hhead : ∀ c, (trim s).head? = some c → c.toNat ≠ 0x85)
    (hlast : ∀ c, (trim s).getLast? = some c → c.toNat ≠ 0x85) : Agrees f s := by
  have hw : wide (trim s) = 0 := by
    rw [wide, List.countP_eq_zero]
    intro c hc
    simpa using hwide c hc
  rw [Agrees, hw, edge_eq_zero hhead hlast]
  omega

/-- The form reports what the server would exactly when no field lies between the two ways
    of counting. -/
theorem form_mirrors_iff (v : Form) :
    (∀ f, ((validateComplaint v).get f).isSome = true ↔ Rejects (body v) f) ↔ ∀ f, Agrees f (v.get f) := by
  refine forall_congr' fun f => ?_
  have hle : (trim (v.get f)).length - edge (v.get f) ≤ (trim (v.get f)).length := Nat.sub_le _ _
  rw [validateComplaint_iff, rejects_iff, Agrees]
  omega

/-- Five characters are ten code units. -/
def flames : Form := ⟨"🔥🔥🔥🔥🔥".toList, "Street 12".toList, []⟩

theorem form_passes_short_text :
    validateComplaint flames = ⟨none, none, none⟩ ∧ ComplaintCreate.modelValidate (body flames) = .error [codes "text".toList] := by
  decide +kernel

end CivicPulse.Frontend
