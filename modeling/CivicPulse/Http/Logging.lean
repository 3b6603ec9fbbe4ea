/-
  CivicPulse.Http.Logging — one JSON line a log record (`app/logging_setup.py`).

  - `loads_format`: a line of readable values can be read back.
  - `selects_format`: it is found by the id that was in the context variable, and by no other.
-/

import CivicPulse.Lang.Dict
import CivicPulse.Services.Complaints
import CivicPulse.Text.Lines

namespace CivicPulse

open Text Lang

/-! ## `JsonFormatter` -/

/-- What the formatter reads of a `LogRecord`; `extra` are the attributes that not every record
    has, as `json.dumps` writes them. -/
structure LogRecord where
  levelname : Str
  name : Str
  message : Str
  extra : Dict Str Json
  exc : Option Str

/-- The attributes that every record has. -/
def RESERVED : List Str :=
  ["name", "msg", "args", "levelname", "levelno", "pathname", "filename", "module", "exc_info", "exc_text", "stack_info", "lineno",
    "funcName", "created", "msecs", "relativeCreated", "thread", "threadName", "processName", "process", "taskName", "message",
    "asctime"].map String.toList

/-- An attribute that is written. -/
def emitted (key : Str) : Bool := !(RESERVED.contains key) && key.head? != some '_'

/-- What every line has. -/
def LogRecord.fields [Platform] (r : LogRecord) (created : Int) (requestId : Str) : List (Str × Json) :=
  [("ts".toList, text (isoformat created)), ("level".toList, text r.levelname), ("logger".toList, text r.name),
    ("msg".toList, text r.message), ("request_id".toList, text requestId)]

/-- The line's dict; the later of two values under one key stands. -/
def LogRecord.payload [Platform] (r : LogRecord) (created : Int) (requestId : Str) : Dict Str Json :=
  let payload := Dict.ofList (r.fields created requestId)
  let payload := (r.extra.entries.filter fun e => emitted e.1).foldl (fun d e => d.set e.1 e.2) payload
  match r.exc with
  | none => payload
  | some exc => payload.set "exc".toList (text exc)

def Text.Json.ofDict (d : Dict Str Json) : Json := .obj (d.entries.map fun e => (codes e.1, e.2))

/-- `JsonFormatter.format`. -/
def LogRecord.format [Platform] (r : LogRecord) (created : Int) (requestId : Str) : Str :=
  (Json.ofDict (r.payload created requestId)).dumps

/-! ## What a reader finds -/

/-- `select(.request_id == id)` of a line. -/
def selects (limit : Nat) (id line : Str) : Bool :=
  match Json.loads limit line with
  | .ok (.obj l) => (Json.lookup "request_id".toList l).bind strOf == some id
  | _ => false

/-- The attributes can be written and read, and none is called as the line's own id. -/
def LogRecord.Readable (limit : Nat) (r : LogRecord) : Prop :=
  ∀ e ∈ r.extra.entries, e.1 ≠ "request_id".toList ∧ e.2.plain = true ∧ e.2.depth < limit

namespace Text.Json

theorem plain_ofDict {d : Dict Str Json} (h : ∀ e ∈ d.entries, e.2.plain = true) : (ofDict d).plain = true := by
  have key : ∀ l : List (Str × Json), (∀ e ∈ l, e.2.plain = true) → plainMembers (l.map fun e => (codes e.1, e.2)) = true := by
    intro l hl
    induction l with
    | nil => rfl
    | cons e l ih =>
      rw [List.map_cons, plainMembers, codes_scalar, hl e List.mem_cons_self, ih fun e he => hl e (List.mem_cons_of_mem _ he)]
      rfl
  exact key _ h

theorem depth_ofDict {d : Dict Str Json} {limit : Nat} (h0 : 0 < limit) (h : ∀ e ∈ d.entries, e.2.depth < limit) :
    (ofDict d).depth ≤ limit := by
  have key : ∀ l : List (Str × Json), (∀ e ∈ l, e.2.depth < limit) → depthMembers (l.map fun e => (codes e.1, e.2)) < limit := by
    intro l hl
    induction l with
    | nil => exact h0
    | cons e l ih => exact max_lt (hl e List.mem_cons_self) (ih fun e he => hl e (List.mem_cons_of_mem _ he))
  exact key _ h

theorem codes_inj {s t : Str} (h : codes s = codes t) : s = t := by
  have hs := ofCodes_codes s
  rw [h, ofCodes_codes] at hs
  exact (Option.some.inj hs).symm

theorem lookup_ofDict {d : Dict Str Json} {k : Str} {v : Json} (h : (k, v) ∈ d.entries) :
    lookup k (d.entries.map fun e => (codes e.1, e.2)) = some v := by
  unfold lookup
  cases hf : (d.entries.map fun e => (codes e.1, e.2)).reverse.find? (·.1 == codes k) with
  | none =>
    have hno := List.find?_eq_none.mp hf (codes k, v) (List.mem_reverse.mpr (List.mem_map.mpr ⟨(k, v), h, rfl⟩))
    simp at hno
  | some x =>
    obtain ⟨e, he, rfl⟩ := List.mem_map.mp (List.mem_reverse.mp (List.mem_of_find?_eq_some hf))
    have hk : e.1 = k := codes_inj (by simpa using List.find?_some hf)
    subst hk
    exact congrArg some (d.value_unique he h)

end Text.Json

section

variable [Platform] {r : LogRecord} {created : Int} {id : Str}

theorem mem_payload {e : Str × Json} (h : e ∈ (r.payload created id).entries) : (∃ s, e.2 = text s) ∨ e ∈ r.extra.entries := by
  have hfold : ∀ e ∈ ((r.extra.entries.filter fun e => emitted e.1).foldl (fun d e => d.set e.1 e.2)
      (Dict.ofList (r.fields created id))).entries, (∃ s, e.2 = text s) ∨ e ∈ r.extra.entries := by
    intro e he
    rcases Dict.mem_foldl_set _ _ he with he | he
    · have htext := Dict.mem_ofList he
      simp only [LogRecord.fields, List.mem_cons, List.not_mem_nil, or_false] at htext
      rcases htext with rfl | rfl | rfl | rfl | rfl <;> exact .inl ⟨_, rfl⟩
    · exact .inr (List.mem_of_mem_filter he)
  unfold LogRecord.payload at h
  cases hexc : r.exc with
  | none =>
    rw [hexc] at h
    exact hfold e h
  | some exc =>
    rw [hexc] at h
    rcases Dict.mem_set h with h | rfl
    · exact hfold e h
    · exact .inl ⟨exc, rfl⟩

/-- No attribute takes the id's place. -/
theorem id_mem_payload {limit : Nat} (h : r.Readable limit) : ("request_id".toList, text id) ∈ (r.payload created id).entries := by
  have hkeys : ((r.fields created id).map Prod.fst).Nodup :=
    (by decide : (["ts", "level", "logger", "msg", "request_id"].map String.toList).Nodup)
  have hbase : ("request_id".toList, text id) ∈ (Dict.ofList (r.fields created id)).entries := by
    rw [Dict.entries_ofList hkeys]
    simp [LogRecord.fields]
  have hne : ∀ x ∈ r.extra.entries.filter fun e => emitted e.1, x.1 ≠ "request_id".toList :=
    fun x hx => (h x (List.mem_of_mem_filter hx)).1
  have hfold := Dict.mem_foldl_of_ne (e := ("request_id".toList, text id)) hne hbase
  unfold LogRecord.payload
  cases r.exc with
  | none => exact hfold
  | some exc => exact Dict.mem_set_of_ne hfold (by decide : "exc".toList ≠ "request_id".toList) _

theorem loads_format {limit : Nat} (h0 : 0 < limit) (h : r.Readable limit) :
    Json.loads limit (r.format created id) = .ok (Json.ofDict (r.payload created id)) := by
  have hvalues : ∀ e ∈ (r.payload created id).entries, e.2.plain = true ∧ e.2.depth < limit := by
    intro e he
    rcases mem_payload he with ⟨s, hs⟩ | he
    · rw [hs]
      exact ⟨Json.codes_scalar s, h0⟩
    · exact (h e he).2
  exact Json.loads_dumps (Json.plain_ofDict fun e he => (hvalues e he).1) (Json.depth_ofDict h0 fun e he => (hvalues e he).2)

/-- A line is found by its id, and by no other. -/
theorem selects_format {limit : Nat} (h0 : 0 < limit) (h : r.Readable limit) (id' : Str) :
    selects limit id' (r.format created id) = (id == id') := by
  have hid : strOf (text id) = some id := strOf_codes id
  unfold selects
  rw [loads_format h0 h]
  show ((Json.lookup "request_id".toList ((r.payload created id).entries.map fun e => (codes e.1, e.2))).bind strOf == some id') = _
  rw [Json.lookup_ofDict (id_mem_payload h), Option.bind_some, hid]
  rfl

end

end CivicPulse
