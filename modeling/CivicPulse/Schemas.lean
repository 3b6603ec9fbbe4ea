/-
  CivicPulse.Schemas — the Pydantic models (`app/schemas.py`): a complaint's body, a
  triage result, the statistics.

  A validated value carries what its validator checked, so a `TriageResult` that is not
  one stripped line of at most 140 characters cannot be built. `modelValidate` reads
  JSON (a Python value is the JSON it came from), `modelDump` is `model_dump(mode="json")`.
  - `ofFields_self`: a result's own fields are accepted unchanged.
  - `TriageResult.modelValidate_dump`, `StatsOut.modelValidate_dump`: validating a dump
    gives the value back.
-/

import CivicPulse.Domain
import CivicPulse.Lang.Dict
import CivicPulse.Platform

namespace CivicPulse

open Text Lang

/-! ## Fields -/

/-- A `str` field's value; text with a lone surrogate is refused. -/
def strOf : Json → Option Str
  | .str s => ofCodes s
  | _ => none

def enumOf (α : Type) [DecidableEq α] [StrEnum α] (j : Json) : Option α := (strOf j).bind (ofValue α)

theorem ofCodes_codes (s : Str) : ofCodes (codes s) = some s := by
  rw [ofCodes, if_pos (Json.codes_scalar s), Platform.codes_ofNat]

@[simp] theorem strOf_codes (s : Str) : strOf (.str (codes s)) = some s := ofCodes_codes s

@[simp] theorem enumOf_value {α : Type} [DecidableEq α] [StrEnum α] (a : α) :
    enumOf α (.str (codes (value a))) = some a := by
  simp [enumOf]

/-- `ge=0.0` and `le=1.0` for the double nearest to a decimal: it is `-0.0` down to half the
    least double, and `1.0` up to half a unit above 1. A NaN satisfies neither. -/
def Text.PyFloat.geZero : PyFloat → Bool
  | .fin d => decide (0 ≤ d.mant) || decide (d.mant.natAbs * 2 ^ 1075 ≤ 10 ^ (d.places + 1))
  | .nan => false
  | .inf neg => !neg

def Text.PyFloat.leOne : PyFloat → Bool
  | .fin d => d.mant.toNat * 2 ^ 53 ≤ (2 ^ 53 + 1) * 10 ^ (d.places + 1)
  | .nan => false
  | .inf neg => neg

/-! ## Triage results -/

structure TriageResult where
  category : Category
  priority : Priority
  summary : Str
  confidence : PyFloat
  length_le : summary.length ≤ SUMMARY_MAX
  stripped : strip summary = summary
  oneLine : '\n' ∉ summary ∧ '\r' ∉ summary
  ne_nil : summary ≠ []
  ge : confidence.geZero = true
  le : confidence.leOne = true

namespace TriageResult

/-- `TriageResult(category=…, priority=…, summary=…, confidence=…)`. -/
def ofFields (category : Category) (priority : Priority) (summary : Str) (confidence : PyFloat) :
    Except Exc TriageResult :=
  if hlen : summary.length ≤ SUMMARY_MAX then
    let v := strip summary
    if hline : '\n' ∉ v ∧ '\r' ∉ v then
      if hne : v ≠ [] then
        if hc : confidence.geZero = true ∧ confidence.leOne = true then
          .ok ⟨category, priority, v, confidence, (length_strip_le _).trans hlen, strip_idem _, hline, hne, hc.1, hc.2⟩
        else .error .validationError
      else .error .validationError
    else .error .validationError
  else .error .validationError

@[simp] theorem ofFields_self (r : TriageResult) : ofFields r.category r.priority r.summary r.confidence = .ok r := by
  have h : strip r.summary = r.summary := r.stripped
  simp only [ofFields, r.length_le, dif_pos, h, r.oneLine, r.ne_nil, r.ge, r.le, and_self, ne_eq, not_false_eq_true]

theorem ofFields_ok {category : Category} {priority : Priority} {summary : Str} {confidence : PyFloat} {r : TriageResult}
    (h : ofFields category priority summary confidence = .ok r) :
    r.category = category ∧ r.priority = priority ∧ r.summary = strip summary ∧ r.confidence = confidence := by
  unfold ofFields at h
  split at h
  · simp only at h
    split at h
    · split at h
      · split at h
        · cases h
          exact ⟨rfl, rfl, rfl, rfl⟩
        · cases h
      · cases h
    · cases h
  · cases h

theorem ofFields_error {category : Category} {priority : Priority} {summary : Str} {confidence : PyFloat} {e : Exc}
    (h : ofFields category priority summary confidence = .error e) : e = .validationError := by
  unfold ofFields at h
  split at h
  · simp only at h
    split at h
    · split at h
      · split at h
        · cases h
        · cases h
          rfl
      · cases h
        rfl
    · cases h
      rfl
  · cases h
    rfl

def fields : List Str := ["category".toList, "priority".toList, "summary".toList, "confidence".toList]

variable [Platform]

/-- `TriageResult.model_validate`; a key that is no field is refused. -/
def modelValidate (j : Json) : Except Exc TriageResult :=
  match j with
  | .obj l =>
    match (Json.lookup "category".toList l).bind (enumOf Category), (Json.lookup "priority".toList l).bind (enumOf Priority),
      (Json.lookup "summary".toList l).bind strOf, (Json.lookup "confidence".toList l).bind Platform.floatOf with
    | some category, some priority, some summary, some confidence =>
      if l.all (fun kv => (fields.map codes).contains kv.1) then ofFields category priority summary confidence
      else .error .validationError
    | _, _, _, _ => .error .validationError
  | _ => .error .validationError

theorem modelValidate_error {j : Json} {e : Exc} (h : modelValidate j = .error e) : e = .validationError := by
  unfold modelValidate at h
  split at h
  · split at h
    · split at h
      · exact ofFields_error h
      · cases h
        rfl
    · cases h
      rfl
  · cases h
    rfl

/-- The items of `result.model_dump(mode="json")`. -/
def dumpItems (r : TriageResult) : List (List CodePoint × Json) :=
  [(codes "category".toList, .str (codes (value r.category))),
    (codes "priority".toList, .str (codes (value r.priority))),
    (codes "summary".toList, .str (codes r.summary)),
    (codes "confidence".toList, .float r.confidence)]

def modelDump (r : TriageResult) : Json := .obj r.dumpItems

omit [Platform] in
theorem plain_dump (r : TriageResult) : r.modelDump.plain = true := by
  simp [modelDump, dumpItems, Json.plain, Json.plainMembers, Json.codes_scalar]

omit [Platform] in
theorem depth_dump (r : TriageResult) : r.modelDump.depth = 1 := by
  simp [modelDump, dumpItems, Json.depth, Json.depthMembers]

theorem modelValidate_dump (r : TriageResult) : modelValidate r.modelDump = .ok r := by
  have hc : Json.lookup "category".toList r.dumpItems = some (.str (codes (value r.category))) := rfl
  have hp : Json.lookup "priority".toList r.dumpItems = some (.str (codes (value r.priority))) := rfl
  have hs : Json.lookup "summary".toList r.dumpItems = some (.str (codes r.summary)) := rfl
  have hf : Json.lookup "confidence".toList r.dumpItems = some (.float r.confidence) := rfl
  have hkeys : r.dumpItems.all (fun kv => (fields.map codes).contains kv.1) = true := rfl
  simp only [modelValidate, modelDump, hc, hp, hs, hf, Option.bind_some, enumOf_value, strOf_codes,
    Platform.floatOf_float, ofFields_self, hkeys, if_true]

end TriageResult

/-! ## A complaint's body -/

/-- Pydantic strips `White_Space` characters; `str.isspace` has four more. -/
def isWhiteSpace (c : Char) : Bool := isSpace c && !(0x1C ≤ c.toNat && c.toNat ≤ 0x1F)

/-- A string with no white space at its ends, of `lo` to `hi` characters. -/
structure BoundedStr (lo hi : Nat) where
  str : Str
  trimmed : stripBy isWhiteSpace str = str
  le_length : lo ≤ str.length
  length_le : str.length ≤ hi
  deriving DecidableEq

/-- A `str` field under `str_strip_whitespace`, `min_length` and `max_length`. -/
def boundedStr (lo hi : Nat) (j : Json) : Option (BoundedStr lo hi) :=
  match strOf j with
  | none => none
  | some s =>
    let v := stripBy isWhiteSpace s
    if h : lo ≤ v.length ∧ v.length ≤ hi then some ⟨v, stripBy_idem _, h.1, h.2⟩ else none

structure ComplaintCreate where
  text : BoundedStr TEXT_MIN TEXT_MAX
  location : BoundedStr LOCATION_MIN LOCATION_MAX
  reporterContact : Option (BoundedStr 1 CONTACT_MAX)
  deriving DecidableEq

namespace ComplaintCreate

def fields : List Str := ["text".toList, "location".toList, "reporter_contact".toList]

/-- `blank_to_none`. -/
def blankToNone (v : BoundedStr 0 CONTACT_MAX) : Option (BoundedStr 1 CONTACT_MAX) :=
  if h : 1 ≤ v.str.length then some ⟨v.str, v.trimmed, h, v.length_le⟩ else none

/-- `reporter_contact: str | None`, absent by default. -/
def contactField : Option Json → Option (Option (BoundedStr 1 CONTACT_MAX))
  | none => some none
  | some .null => some none
  | some j => (boundedStr 0 CONTACT_MAX j).map blankToNone

/-- `ComplaintCreate.model_validate`: the body, or the fields at fault (`body` when it is
    no object). -/
def modelValidate (j : Json) : Except (List (List CodePoint)) ComplaintCreate :=
  match j with
  | .obj l =>
    let text := (Json.lookup "text".toList l).bind (boundedStr TEXT_MIN TEXT_MAX)
    let location := (Json.lookup "location".toList l).bind (boundedStr LOCATION_MIN LOCATION_MAX)
    let contact := contactField (Json.lookup "reporter_contact".toList l)
    let extra := (l.map Prod.fst).filter fun k => !(fields.map codes).contains k
    match text, location, contact, extra with
    | some text, some location, some contact, [] => .ok ⟨text, location, contact⟩
    | _, _, _, _ =>
      .error ((if text.isNone then [codes "text".toList] else []) ++
        (if location.isNone then [codes "location".toList] else []) ++
        (if contact.isNone then [codes "reporter_contact".toList] else []) ++ extra)
  | _ => .error [codes "body".toList]

end ComplaintCreate

/-! ## Statistics -/

/-- The JSON object of a dict with string keys `f k`. -/
def dictJson {κ : Type} (f : κ → Str) (d : Dict κ Int) : Json :=
  .obj (d.entries.map fun e => (codes (f e.1), .int e.2))

section

variable [Platform]

def itemOf {κ : Type} (key : Json → Option κ) (e : List CodePoint × Json) : Option (κ × Int) :=
  (key (.str e.1)).bind fun k => (Platform.intOf e.2).map fun n => (k, n)

/-- A field of type `dict[κ, int]`. -/
def dictOf {κ : Type} [DecidableEq κ] (key : Json → Option κ) (j : Json) : Option (Dict κ Int) :=
  match j with
  | .obj l => ((Dict.ofList l).entries.mapM (itemOf key)).map Dict.ofList
  | _ => none

theorem dictOf_json {κ : Type} [DecidableEq κ] {key : Json → Option κ} {f : κ → Str}
    (hk : ∀ k, key (.str (codes (f k))) = some k) (d : Dict κ Int) : dictOf key (dictJson f d) = some d := by
  have hinj : ∀ a b, codes (f a) = codes (f b) → a = b := fun a b h =>
    Option.some.inj ((hk a).symm.trans ((congrArg (fun s => key (.str s)) h).trans (hk b)))
  have hnodup : ((d.entries.map fun e => (codes (f e.1), Json.int e.2)).map Prod.fst).Nodup := by
    rw [List.map_map, show Prod.fst ∘ (fun e : κ × Int => (codes (f e.1), Json.int e.2)) =
      (fun k => codes (f k)) ∘ Prod.fst from rfl, ← List.map_map]
    exact d.nodup.map hinj
  have hread : ∀ l : List (κ × Int), (l.map fun e => (codes (f e.1), Json.int e.2)).mapM (itemOf key) = some l := by
    intro l
    induction l with
    | nil => rfl
    | cons e l ih =>
      rw [List.map_cons, List.mapM_cons, ih]
      simp [itemOf, hk, Platform.intOf_int]
  simp only [dictOf, dictJson, Dict.entries_ofList hnodup, hread, Option.map_some, Dict.ofList_entries]

end

structure StatsOut where
  total : Int
  byCategory : Dict Category Int
  byPriority : Dict Priority Int
  byStatus : Dict Status Int
  byTriagedBy : Dict Str Int
  avgTriageLatencyMs : Option PyFloat
  generatedAt : Int
  deriving DecidableEq

namespace StatsOut

variable [Platform]

/-- A field of type `float | None`. -/
def optFloatOf : Json → Option (Option PyFloat)
  | .null => some none
  | j => (Platform.floatOf j).map some

/-- `StatsOut.model_validate`. -/
def modelValidate (j : Json) : Except Exc StatsOut :=
  match j with
  | .obj l =>
    match (Json.lookup "total".toList l).bind Platform.intOf,
      (Json.lookup "by_category".toList l).bind (dictOf (enumOf Category)),
      (Json.lookup "by_priority".toList l).bind (dictOf (enumOf Priority)),
      (Json.lookup "by_status".toList l).bind (dictOf (enumOf Status)),
      (Json.lookup "by_triaged_by".toList l).bind (dictOf strOf),
      (Json.lookup "avg_triage_latency_ms".toList l).bind optFloatOf,
      (Json.lookup "generated_at".toList l).bind Platform.datetimeOf with
    | some total, some category, some priority, some status, some triagedBy, some avg, some at_ =>
      .ok ⟨total, category, priority, status, triagedBy, avg, at_⟩
    | _, _, _, _, _, _, _ => .error .validationError
  | _ => .error .validationError

/-- The items of `stats.model_dump(mode="json")`. -/
def dumpItems (s : StatsOut) : List (List CodePoint × Json) :=
  [(codes "total".toList, .int s.total),
    (codes "by_category".toList, dictJson value s.byCategory),
    (codes "by_priority".toList, dictJson value s.byPriority),
    (codes "by_status".toList, dictJson value s.byStatus),
    (codes "by_triaged_by".toList, dictJson id s.byTriagedBy),
    (codes "avg_triage_latency_ms".toList, match s.avgTriageLatencyMs with | none => .null | some x => .float x),
    (codes "generated_at".toList, .str (codes (dumpDatetime s.generatedAt)))]

def modelDump (s : StatsOut) : Json := .obj s.dumpItems

theorem modelValidate_dump (s : StatsOut) : modelValidate s.modelDump = .ok s := by
  have ht : Json.lookup "total".toList s.dumpItems = some (.int s.total) := rfl
  have hc : Json.lookup "by_category".toList s.dumpItems = some (dictJson value s.byCategory) := rfl
  have hp : Json.lookup "by_priority".toList s.dumpItems = some (dictJson value s.byPriority) := rfl
  have hs : Json.lookup "by_status".toList s.dumpItems = some (dictJson value s.byStatus) := rfl
  have hb : Json.lookup "by_triaged_by".toList s.dumpItems = some (dictJson id s.byTriagedBy) := rfl
  have ha : Json.lookup "avg_triage_latency_ms".toList s.dumpItems =
      some (match s.avgTriageLatencyMs with | none => .null | some x => .float x) := rfl
  have hg : Json.lookup "generated_at".toList s.dumpItems = some (.str (codes (dumpDatetime s.generatedAt))) := rfl
  have havg : optFloatOf (match s.avgTriageLatencyMs with | none => .null | some x => .float x) =
      some s.avgTriageLatencyMs := by
    cases s.avgTriageLatencyMs with
    | none => rfl
    | some x => exact congrArg (Option.map some) (Platform.floatOf_float x)
  simp only [modelValidate, modelDump, ht, hc, hp, hs, hb, ha, hg, Option.bind_some, Platform.intOf_int,
    dictOf_json enumOf_value, dictOf_json (f := id) strOf_codes, havg, Platform.datetimeOf_dump]

end StatsOut

end CivicPulse
