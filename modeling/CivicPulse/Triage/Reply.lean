/-
  CivicPulse.Triage.Reply — what the HTTP providers make of an upstream's reply
  (`_call_once` and `_extract_content` of `app/providers/triage/llm.py` and `ollama.py`,
  `parse_triage_json` of `prompt.py`).

  Each stage has its own way to fail: the transport, the status, the envelope, the JSON of
  the content, the schema. `json.loads` can also fail with a plain `ValueError` (an integer
  literal over the digit limit) and a `RecursionError`, `str` with a `RecursionError`, and
  these are not caught everywhere. Where they are raised is told by the text read
  (`Json.Within`) and by the value shown (`Json.Shown`).
  - `parse_malformed_iff`: for which texts `parse_triage_json` raises nothing but
    `TriageMalformedOutput`.
  - `call_once_closed_iff`: for which replies the outcome is a result or one of the five
    documented errors; `call_once_open` is a reply for which it is neither.
-/

import CivicPulse.Services.Triage
import CivicPulse.Text.StandIns

namespace CivicPulse

open Text

/-! ## Errors -/

/-- The five errors of the provider interface. -/
def Exc.isTriageError : Exc → Bool
  | .triageTimeout | .triageRateLimited | .triageUpstream | .triageBadRequest | .triageMalformedOutput => true
  | _ => false

def indexError : Exc := .other "IndexError".toList

/-- Caught by `except (ValueError, KeyError, IndexError, TypeError)`. -/
def Exc.isEnvelopeError (e : Exc) : Bool := e.isKeyOrValueError || e == indexError || e == .typeError

/-- `try: …  except …: raise f(e)`, `f` giving back what is not caught. -/
def mapError {α : Type} (f : Exc → Exc) : Except Exc α → Except Exc α
  | .ok a => .ok a
  | .error e => .error (f e)

/-! ## The content -/

namespace Prompt

/-- `_FENCE`. -/
def fence : Re :=
  let ticks : Re := .lit (· == ·) "```".toList
  .alt (.seq .bos (.seq ticks (.seq (.opt (.lit Re.eqIgnoreCase "json".toList)) (.many isSpace))))
    (.seq (.many isSpace) (.seq ticks .eos))

/-- `_FENCE.sub("", raw.strip())`. -/
def cleaned (raw : Str) : Str := fence.sub (fun _ => []) (strip raw)

/-- A match starts a text with backticks, or ends it with them, after white space. -/
theorem fence_ends {q q' : Re.Pos} (h : q' ∈ fence.ends q) :
    (q.1 = none ∧ ∃ u, q.2 = "```".toList ++ u) ∨
      ∃ sp u, q.2 = sp ++ ("```".toList ++ u) ∧ (∀ c ∈ sp, isSpace c = true) ∧ (u = [] ∨ u = ['\n']) := by
  obtain ⟨prev, s⟩ := q
  rcases Re.mem_alt.mp h with h | h
  · obtain ⟨m, hm, h⟩ := Re.mem_seq.mp h
    obtain ⟨m', hm', -⟩ := Re.mem_seq.mp h
    obtain ⟨rfl, hprev⟩ := Re.mem_bos.mp hm
    obtain ⟨u, hs, -⟩ := Re.mem_word.mp hm'
    exact .inl ⟨hprev, u, hs⟩
  · obtain ⟨m, hm, h⟩ := Re.mem_seq.mp h
    obtain ⟨m', hm', h⟩ := Re.mem_seq.mp h
    obtain ⟨sp, t, rfl, hsp, rfl⟩ := Re.mem_many.mp hm
    obtain ⟨u, rfl, rfl⟩ := Re.mem_word.mp hm'
    obtain ⟨-, hu⟩ := Re.mem_eos.mp h
    exact .inr ⟨sp, u, rfl, hsp, hu⟩

/-- Neither the fence nor the stripping tells the stand-ins of surrogates apart. -/
theorem cleaned_blur (s : Str) : cleaned (s.map blur) = (cleaned s).map blur := by
  have hword : ∀ {w : Str}, (∀ a ∈ w, a.toNat < 0xE000) → ∀ a ∈ w, ∀ c, (a == blur c) = (a == c) := by
    intro w hw a ha c
    rw [Bool.eq_iff_iff, beq_iff_eq, beq_iff_eq, eq_comm, blur_eq (hw a ha), eq_comm]
  have hblind : fence.Blind blur :=
    ⟨⟨trivial, hword (Json.word_low (by decide)), fun a ha c => Re.eqIgnoreCase_blur (Json.word_low (by decide) a ha) c, isSpace_blur⟩,
      isSpace_blur, hword (Json.word_low (by decide)), blur_eq (by decide)⟩
  rw [cleaned, strip_blur, Re.sub_blind hblind]
  rfl

variable [Platform]

def parseTriageJson (raw : List CodePoint) : Except Exc TriageResult := do
  let data ← mapError (fun e => if e = .jsonDecodeError ∨ e = .typeError then .triageMalformedOutput else e)
    (jsonLoads cleaned raw)
  match data with
  | .obj l =>
    mapError (fun e => if e = .validationError then .triageMalformedOutput else e) (TriageResult.modelValidate (.obj l))
  | _ => throw .triageMalformedOutput

end Prompt

/-! ## The envelope -/

/-- `x[i]` at an index. -/
def item (i : Nat) : Json → Except Exc Json
  | .arr l => match l[i]? with
    | some x => .ok x
    | none => .error indexError
  | .str s => match s[i]? with
    | some n => .ok (.str [n])
    | none => .error indexError
  | .obj _ => .error .keyError
  | _ => .error .typeError

section

variable [Printing]

/-- `str(x)`. -/
def pyStr (x : Json) : Except Exc (List CodePoint) := if x.Shown then .ok x.toText else .error .recursionError

def LLMTriage.extractContent (body : Json) : Except Exc (List CodePoint) := do
  let choices ← subscript "choices".toList body
  let message ← subscript "message".toList (← item 0 choices)
  let content ← subscript "content".toList message
  pyStr content

def OllamaTriage.extractContent (body : Json) : Except Exc (List CodePoint) := do
  let message ← subscript "message".toList body
  let content ← subscript "content".toList message
  pyStr content

end

/-! ## One call -/

/-- What posting the request comes to. -/
inductive HttpReply where
  /-- `httpx.TimeoutException`. -/
  | timeout
  /-- Any other `httpx.HTTPError`. -/
  | httpError
  | response (status : Int) (body : List UInt8)

variable [Platform]

namespace HttpJsonProvider

/-- `_call_once`, for a provider with this `_extract_content`. -/
def callOnce (extractContent : Json → Except Exc (List CodePoint)) : HttpReply → Except Exc TriageResult
  | .timeout => .error .triageTimeout
  | .httpError => .error .triageUpstream
  | .response status body =>
    if status = 429 then throw .triageRateLimited
    else if 500 ≤ status then throw .triageUpstream
    else if 400 ≤ status then throw .triageBadRequest
    else do
      let content ← mapError (fun e => if e.isEnvelopeError then .triageMalformedOutput else e)
        ((jsonLoadsBytes body).bind extractContent)
      Prompt.parseTriageJson content

end HttpJsonProvider

/-- A result, or one of the five errors. -/
def Closed : Except Exc TriageResult → Prop
  | .ok _ => True
  | .error e => e.isTriageError = true

/-! ## Where each stage ends -/

omit [Platform] in
theorem subscript_error {key : Str} {j : Json} {e : Exc} (h : subscript key j = .error e) : e.isEnvelopeError = true := by
  unfold subscript at h
  split at h
  · split at h
    · cases h
    · cases h
      rfl
  · cases h
    rfl

omit [Platform] in
theorem item_error {i : Nat} {j : Json} {e : Exc} (h : item i j = .error e) : e.isEnvelopeError = true := by
  unfold item at h
  split at h
  · split at h
    · cases h
    · cases h
      decide
  · split at h
    · cases h
    · cases h
      decide
  · cases h
    rfl
  · cases h
    rfl

section

variable {f : Str → Str} (hf : ∀ s, f (s.map blur) = (f s).map blur) (s : List CodePoint)
include hf

theorem jsonLoads_value_iff :
    jsonLoads f s = .error .valueError ↔ Json.Stuck .digits recursionLimit (f (view 0xE000 s)) := by
  rw [← Json.loads_error_iff (by decide), ← Json.loadsText_error_iff hf]
  unfold jsonLoads
  split <;> simp_all

theorem jsonLoads_recursion_iff :
    jsonLoads f s = .error .recursionError ↔ Json.Stuck .recursion recursionLimit (f (view 0xE000 s)) := by
  rw [← Json.loads_error_iff (by decide), ← Json.loadsText_error_iff hf]
  unfold jsonLoads
  split <;> simp_all

end

theorem jsonLoadsBytes_ok_iff {b : List UInt8} {j : Json} :
    jsonLoadsBytes b = .ok j ↔ ∃ s, decode b = some s ∧ Json.Denotes recursionLimit s j := by
  simp only [← Json.loadsText_ok_iff]
  unfold jsonLoadsBytes
  split
  · simp_all
  · unfold jsonLoads
    split <;> simp_all

theorem jsonLoadsBytes_recursion_iff {b : List UInt8} :
    jsonLoadsBytes b = .error .recursionError ↔ ∃ s, decode b = some s ∧ Json.Stuck .recursion recursionLimit (view 0xE000 s) := by
  unfold jsonLoadsBytes
  split
  · simp_all
  · rename_i s hs
    rw [jsonLoads_recursion_iff (f := id) (fun _ => rfl)]
    simp [hs]

/-- The JSON that a text is decoded to is over a limit, and the error passes through; or
    the text is answered or malformed. -/
theorem parse_cases (raw : List CodePoint) :
    (jsonLoads Prompt.cleaned raw = .error .valueError ∧ Prompt.parseTriageJson raw = .error .valueError) ∨
    (jsonLoads Prompt.cleaned raw = .error .recursionError ∧ Prompt.parseTriageJson raw = .error .recursionError) ∨
    ((jsonLoads Prompt.cleaned raw ≠ .error .valueError ∧ jsonLoads Prompt.cleaned raw ≠ .error .recursionError) ∧
      ((∃ r, Prompt.parseTriageJson raw = .ok r) ∨ Prompt.parseTriageJson raw = .error .triageMalformedOutput)) := by
  unfold Prompt.parseTriageJson
  rcases h : jsonLoads Prompt.cleaned raw with e | j
  · rcases jsonLoads_error h with rfl | rfl | rfl
    · exact .inr (.inr ⟨⟨by simp, by simp⟩, .inr rfl⟩)
    · exact .inl ⟨rfl, rfl⟩
    · exact .inr (.inl ⟨rfl, rfl⟩)
  · refine .inr (.inr ⟨⟨by simp, by simp⟩, ?_⟩)
    cases j with
    | obj l =>
      show (∃ r, mapError _ (TriageResult.modelValidate (.obj l)) = .ok r) ∨ mapError _ (TriageResult.modelValidate (.obj l)) = _
      rcases hv : TriageResult.modelValidate (.obj l) with e | r
      · rw [TriageResult.modelValidate_error hv]
        exact .inr rfl
      · exact .inl ⟨r, rfl⟩
    | _ => exact .inr rfl

/-- Neither of the two errors that pass through is raised. -/
theorem within_iff (raw : List CodePoint) : Json.Within recursionLimit (Prompt.cleaned (view 0xE000 raw)) ↔
    jsonLoads Prompt.cleaned raw ≠ .error .valueError ∧ jsonLoads Prompt.cleaned raw ≠ .error .recursionError := by
  rw [Json.Within, ← jsonLoads_value_iff Prompt.cleaned_blur, ← jsonLoads_recursion_iff Prompt.cleaned_blur]

theorem parse_malformed_iff (raw : List CodePoint) :
    (∀ e, Prompt.parseTriageJson raw = .error e → e = .triageMalformedOutput) ↔
      Json.Within recursionLimit (Prompt.cleaned (view 0xE000 raw)) := by
  rw [within_iff]
  rcases parse_cases raw with ⟨hl, hp⟩ | ⟨hl, hp⟩ | ⟨hl, hp⟩
  · exact iff_of_false (fun hall => by cases hall _ hp) fun h => h.1 hl
  · exact iff_of_false (fun hall => by cases hall _ hp) fun h => h.2 hl
  · refine iff_of_true (fun e he => ?_) hl
    rcases hp with ⟨r, hp⟩ | hp
    · cases hp.symm.trans he
    · cases hp.symm.trans he
      rfl

theorem parse_closed_iff (raw : List CodePoint) :
    Closed (Prompt.parseTriageJson raw) ↔ Json.Within recursionLimit (Prompt.cleaned (view 0xE000 raw)) := by
  rw [within_iff]
  rcases parse_cases raw with ⟨hl, hp⟩ | ⟨hl, hp⟩ | ⟨hl, hp⟩
  · rw [hp]
    exact iff_of_false (fun h => by cases h) fun h => h.1 hl
  · rw [hp]
    exact iff_of_false (fun h => by cases h) fun h => h.2 hl
  · rcases hp with ⟨r, hp⟩ | hp
    · rw [hp]
      exact iff_of_true trivial hl
    · rw [hp]
      exact iff_of_true rfl hl

/-- Over a status of 400 and more, and without a reply, the outcome is one of the five. -/
theorem call_refused (extractContent : Json → Except Exc (List CodePoint)) {status : Int} (hs : 400 ≤ status) (body : List UInt8) :
    Closed (HttpJsonProvider.callOnce extractContent (.response status body)) := by
  simp only [HttpJsonProvider.callOnce]
  split
  · exact rfl
  · split
    · exact rfl
    · exact rfl

theorem call_read (extractContent : Json → Except Exc (List CodePoint)) {status : Int} (hs : status < 400) (body : List UInt8) :
    HttpJsonProvider.callOnce extractContent (.response status body) =
      (mapError (fun e => if e.isEnvelopeError then .triageMalformedOutput else e) ((jsonLoadsBytes body).bind extractContent)).bind
        Prompt.parseTriageJson := by
  have h429 : ¬ status = 429 := by omega
  have h500 : ¬ 500 ≤ status := by omega
  have h400 : ¬ 400 ≤ status := by omega
  simp only [HttpJsonProvider.callOnce, if_neg h429, if_neg h500, if_neg h400]
  rfl

/-! ## The two providers -/

inductive HttpProvider where
  | llm
  | ollama

def HttpProvider.extractContent [Printing] : HttpProvider → Json → Except Exc (List CodePoint)
  | llm => LLMTriage.extractContent
  | ollama => OllamaTriage.extractContent

/-- A reply's JSON has this content, where the provider looks for it. -/
inductive HttpProvider.Holds : HttpProvider → Json → Json → Prop
  | llm {body first message : List (List CodePoint × Json)} {others : List Json} {content : Json} :
      Json.lookup "choices".toList body = some (.arr (.obj first :: others)) →
      Json.lookup "message".toList first = some (.obj message) → Json.lookup "content".toList message = some content →
      Holds .llm (.obj body) content
  | ollama {body message : List (List CodePoint × Json)} {content : Json} :
      Json.lookup "message".toList body = some (.obj message) → Json.lookup "content".toList message = some content →
      Holds .ollama (.obj body) content

omit [Platform] in
theorem subscript_cases (key : Str) (j : Json) :
    (∃ l x, j = .obj l ∧ Json.lookup key l = some x ∧ subscript key j = .ok x) ∨
      ∃ e, subscript key j = .error e ∧ e.isEnvelopeError = true := by
  rcases h : subscript key j with e | x
  · exact .inr ⟨e, rfl, subscript_error h⟩
  · left
    unfold subscript at h
    split at h
    · split at h
      · cases h
        exact ⟨_, x, rfl, ‹_›, rfl⟩
      · cases h
    · cases h

omit [Platform] in
theorem subscript_lookup {key : Str} {l : List (List CodePoint × Json)} {x : Json} (h : Json.lookup key l = some x) :
    subscript key (.obj l) = .ok x := by
  simp only [subscript, h]

omit [Platform] in
/-- An object is an item of a list only: a text's items are texts. -/
theorem item_obj {j : Json} {l : List (List CodePoint × Json)} (h : item 0 j = .ok (.obj l)) : ∃ others, j = .arr (.obj l :: others) := by
  unfold item at h
  split at h
  · rename_i l'
    cases l' with
    | nil => cases h
    | cons x others =>
      cases h
      exact ⟨others, rfl⟩
  · split at h <;> cases h
  · cases h
  · cases h

omit [Platform] in
theorem ok_bind {α β : Type} (a : α) (f : α → Except Exc β) : (Except.ok a >>= f) = f a := rfl

omit [Platform] in
theorem extract_held [Printing] {p : HttpProvider} {j content : Json} (h : p.Holds j content) :
    p.extractContent j = pyStr content := by
  cases h with
  | llm hchoices hmessage hcontent =>
    simp only [HttpProvider.extractContent, LLMTriage.extractContent, subscript_lookup hchoices, bind, Except.bind, item,
      List.getElem?_cons_zero, subscript_lookup hmessage, subscript_lookup hcontent]
  | ollama hmessage hcontent =>
    simp only [HttpProvider.extractContent, OllamaTriage.extractContent, bind, Except.bind, subscript_lookup hmessage,
      subscript_lookup hcontent]

omit [Platform] in
/-- Without a content, the envelope is at fault. -/
theorem extract_missing [Printing] {p : HttpProvider} {j : Json} (h : ∀ content, ¬ p.Holds j content) :
    ∃ e, p.extractContent j = .error e ∧ e.isEnvelopeError = true := by
  cases p with
  | llm =>
    simp only [HttpProvider.extractContent, LLMTriage.extractContent]
    rcases subscript_cases "choices".toList j with ⟨body, choices, rfl, hchoices, hj⟩ | ⟨e, hj, he⟩
    · rcases hfirst : item 0 choices with e | first
      · exact ⟨e, by rw [hj, ok_bind, hfirst]; rfl, item_error hfirst⟩
      · rcases subscript_cases "message".toList first with ⟨l, message, rfl, hmessage, hf⟩ | ⟨e, hf, he⟩
        · obtain ⟨others, rfl⟩ := item_obj hfirst
          rcases subscript_cases "content".toList message with ⟨m, content, rfl, hcontent, hm⟩ | ⟨e, hm, he⟩
          · exact absurd (.llm hchoices hmessage hcontent) (h content)
          · exact ⟨e, by rw [hj, ok_bind, hfirst, ok_bind, hf, ok_bind, hm]; rfl, he⟩
        · exact ⟨e, by rw [hj, ok_bind, hfirst, ok_bind, hf]; rfl, he⟩
    · exact ⟨e, by rw [hj]; rfl, he⟩
  | ollama =>
    simp only [HttpProvider.extractContent, OllamaTriage.extractContent]
    rcases subscript_cases "message".toList j with ⟨body, message, rfl, hmessage, hj⟩ | ⟨e, hj, he⟩
    · rcases subscript_cases "content".toList message with ⟨m, content, rfl, hcontent, hm⟩ | ⟨e, hm, he⟩
      · exact absurd (.ollama hmessage hcontent) (h content)
      · exact ⟨e, by rw [hj, ok_bind, hm]; rfl, he⟩
    · exact ⟨e, by rw [hj]; rfl, he⟩

omit [Platform] in
theorem holds_unique {p : HttpProvider} {j c c' : Json} (h : p.Holds j c) (h' : p.Holds j c') : c = c' := by
  cases h with
  | llm h1 h2 h3 =>
    cases h' with
    | llm h1' h2' h3' =>
      cases h1.symm.trans h1'
      cases h2.symm.trans h2'
      cases h3.symm.trans h3'
      rfl
  | ollama h2 h3 =>
    cases h' with
    | ollama h2' h3' =>
      cases h2.symm.trans h2'
      cases h3.symm.trans h3'
      rfl

/-- A reply's bytes, decoded, have this content. -/
def HttpProvider.Sends (p : HttpProvider) (body : List UInt8) (content : Json) : Prop :=
  ∃ s j, decode body = some s ∧ Json.Denotes recursionLimit s j ∧ p.Holds j content

/-- The body nests no deeper than the decoder goes; and the content it has, if any, can be
    shown as a text, in which the decoder meets neither a bracket too deep nor an integer
    over the digit limit. -/
structure WithinLimits [Printing] (p : HttpProvider) (body : List UInt8) : Prop where
  depth : ∀ s, decode body = some s → ¬ Json.Stuck .recursion recursionLimit (view 0xE000 s)
  shown : ∀ content, p.Sends body content → content.Shown
  content : ∀ content, p.Sends body content → Json.Within recursionLimit (Prompt.cleaned (view 0xE000 content.toText))

/-- The body's JSON fails as an envelope does, unless it nests too deep. -/
theorem body_error {body : List UInt8} {e : Exc} (h : jsonLoadsBytes body = .error e) :
    e.isEnvelopeError = true ∨ e = .recursionError := by
  rcases jsonLoadsBytes_error h with rfl | rfl | rfl | rfl
  · exact .inl rfl
  · exact .inl rfl
  · exact .inl rfl
  · exact .inr rfl

theorem sends_read {p : HttpProvider} {body : List UInt8} {content : Json} (h : p.Sends body content) :
    ∃ j, jsonLoadsBytes body = .ok j ∧ p.Holds j content := by
  obtain ⟨s, j, hs, hj, hc⟩ := h
  exact ⟨j, jsonLoadsBytes_ok_iff.mpr ⟨s, hs, hj⟩, hc⟩

theorem sends_unique {p : HttpProvider} {body : List UInt8} {j c c' : Json} (hbody : jsonLoadsBytes body = .ok j) (h : p.Holds j c)
    (h' : p.Sends body c') : c' = c := by
  obtain ⟨j', hj', hc'⟩ := sends_read h'
  cases hbody.symm.trans hj'
  exact holds_unique hc' h

theorem body_within {body : List UInt8} (h : jsonLoadsBytes body ≠ .error .recursionError) :
    ∀ s, decode body = some s → ¬ Json.Stuck .recursion recursionLimit (view 0xE000 s) :=
  fun s hs hstuck => h (jsonLoadsBytes_recursion_iff.mpr ⟨s, hs, hstuck⟩)

theorem call_read_closed_iff [Printing] (p : HttpProvider) {status : Int} (hs : status < 400) (body : List UInt8) :
    Closed (HttpJsonProvider.callOnce p.extractContent (.response status body)) ↔ WithinLimits p body := by
  have henvelope : ∀ {e : Exc}, e.isEnvelopeError = true →
      Closed (.error (if e.isEnvelopeError then .triageMalformedOutput else e)) := by
    intro e he
    rw [if_pos he]
    exact rfl
  rw [call_read _ hs]
  rcases hbody : jsonLoadsBytes body with e | j
  · have hnone : ∀ c, ¬ p.Sends body c := by
      intro c hc
      obtain ⟨j, hj, -⟩ := sends_read hc
      cases hbody.symm.trans hj
    rcases body_error hbody with he | rfl
    · refine iff_of_true (henvelope he) ⟨body_within ?_, fun c hc => absurd hc (hnone c), fun c hc => absurd hc (hnone c)⟩
      rw [hbody]
      intro h
      cases h
      cases he
    · refine iff_of_false (fun h => by cases h) fun h => ?_
      obtain ⟨s, hs, hstuck⟩ := jsonLoadsBytes_recursion_iff.mp hbody
      exact h.depth s hs hstuck
  · have hdeep : jsonLoadsBytes body ≠ .error .recursionError := by simp [hbody]
    have hwithin := body_within hdeep
    show Closed (Except.bind (mapError _ (p.extractContent j)) _) ↔ _
    by_cases hhas : ∃ c, p.Holds j c
    · obtain ⟨c, hc⟩ := hhas
      have hsends : p.Sends body c := by
        obtain ⟨s, hs, hj⟩ := jsonLoadsBytes_ok_iff.mp hbody
        exact ⟨s, j, hs, hj, hc⟩
      rw [extract_held hc]
      unfold pyStr
      split
      · rename_i hshown
        show Closed (Prompt.parseTriageJson c.toText) ↔ _
        rw [parse_closed_iff]
        constructor
        · intro h
          refine ⟨hwithin, fun c' hc' => ?_, fun c' hc' => ?_⟩
          · rw [sends_unique hbody hc hc']
            exact hshown
          · rw [sends_unique hbody hc hc']
            exact h
        · intro h
          exact h.content c hsends
      · rename_i hshown
        exact iff_of_false (fun h => by cases h) fun h => hshown (h.shown c hsends)
    · have hnone : ∀ c, ¬ p.Sends body c := by
        intro c hc
        obtain ⟨j', hj', hc'⟩ := sends_read hc
        cases hbody.symm.trans hj'
        exact hhas ⟨c, hc'⟩
      obtain ⟨e, he, henv⟩ := extract_missing fun c hc => hhas ⟨c, hc⟩
      rw [he]
      exact iff_of_true (henvelope henv) ⟨hwithin, fun c hc => absurd hc (hnone c), fun c hc => absurd hc (hnone c)⟩

theorem call_closed_iff [Printing] (p : HttpProvider) (reply : HttpReply) :
    Closed (HttpJsonProvider.callOnce p.extractContent reply) ↔
      ∀ status body, reply = .response status body → status < 400 → WithinLimits p body := by
  cases reply with
  | timeout => exact iff_of_true rfl fun _ _ h => by cases h
  | httpError => exact iff_of_true rfl fun _ _ h => by cases h
  | response status body =>
    constructor
    · intro h status' body' he hs
      cases he
      exact (call_read_closed_iff p hs body).mp h
    · intro h
      by_cases hs : status < 400
      · exact (call_read_closed_iff p hs body).mpr (h status body rfl hs)
      · exact call_refused _ (by omega) body

/-- A call ends in a result or one of the five errors, and `parse_triage_json` in a result or
    `TriageMalformedOutput`, exactly when the texts decoded are within the decoder's limits. -/
theorem call_once_closed_iff [Printing] :
    (∀ (p : HttpProvider) (reply : HttpReply), Closed (HttpJsonProvider.callOnce p.extractContent reply) ↔
      ∀ status body, reply = .response status body → status < 400 → WithinLimits p body) ∧
    ∀ raw : List CodePoint, (∀ e, Prompt.parseTriageJson raw = .error e → e = .triageMalformedOutput) ↔
      Json.Within recursionLimit (Prompt.cleaned (view 0xE000 raw)) :=
  ⟨call_closed_iff, parse_malformed_iff⟩

/-! ## An integer over the digit limit -/

omit [Platform] in
/-- A match of the fence holds a backtick. -/
theorem mem_fence {q q' : Re.Pos} (h : q' ∈ Prompt.fence.ends q) : Char.ofNat 96 ∈ q.2 := by
  have htick : Char.ofNat 96 ∈ "```".toList := by decide
  rcases Prompt.fence_ends h with ⟨-, u, hu⟩ | ⟨sp, u, hu, -⟩
  · rw [hu]
    exact List.mem_append_left u htick
  · rw [hu]
    exact List.mem_append_right sp (List.mem_append_left u htick)

omit [Platform] in
/-- A text without white space and backticks is decoded as it is. -/
theorem cleaned_plain {s : Str} (hs : ∀ c ∈ s, isSpace c = false) (ht : Char.ofNat 96 ∉ s) : Prompt.cleaned s = s := by
  have hstrip : strip s = s := stripBy_plain hs
  rw [Prompt.cleaned, hstrip]
  refine Re.sub_plain (fun prev u hu => ?_) _
  rcases hm : Prompt.fence.matchAt (prev, u) with _ | q
  · rfl
  · exact absurd (hu.subset (mem_fence (List.mem_of_mem_head? hm))) ht

/-- A reply whose content is this text, as Ollama wraps it. -/
def ollamaReply (content : Str) : Json :=
  .obj [(codes "message".toList, .obj [(codes "content".toList, .str (codes content))])]

theorem json_ollamaReply (content : Str) : jsonLoadsBytes (utf8Bytes (ollamaReply content).dumps) = .ok (ollamaReply content) := by
  have hplain : (ollamaReply content).plain = true := by
    simp [ollamaReply, Json.plain, Json.plainMembers, Json.codes_scalar]
  have hdepth : (ollamaReply content).depth ≤ recursionLimit :=
    Nat.le_trans (by simp [ollamaReply, Json.depth, Json.depthMembers]) Platform.recursionLimit_ge
  exact jsonLoadsBytes_dumps hplain hdepth

theorem call_ollamaReply [Printing] (content : Str) : HttpJsonProvider.callOnce OllamaTriage.extractContent
    (.response 200 (utf8Bytes (ollamaReply content).dumps)) = Prompt.parseTriageJson (codes content) := by
  have hextract : (Except.ok (ollamaReply content)).bind OllamaTriage.extractContent = .ok (codes content) := by
    refine (extract_held (p := .ollama) (.ollama rfl rfl)).trans ?_
    exact if_pos (.inl rfl)
  rw [call_read _ (by decide), json_ollamaReply, hextract]
  rfl

omit [Platform] in
theorem cleaned_ones (n : Nat) : Prompt.cleaned (List.replicate n '1') = List.replicate n '1' := by
  refine cleaned_plain (fun c hc => ?_) fun hm => ?_
  · rw [List.eq_of_mem_replicate hc]
    decide
  · exact absurd (List.eq_of_mem_replicate hm) (by decide)

/-- An integer of more than 4300 digits as the content ends the call with a plain
    `ValueError`. -/
theorem call_long_integer [Printing] {n : Nat} (hn : 4300 ≤ n) : HttpJsonProvider.callOnce OllamaTriage.extractContent
    (.response 200 (utf8Bytes (ollamaReply (List.replicate (n + 1) '1')).dumps)) = .error .valueError := by
  have hlong : Json.loads recursionLimit (List.replicate (n + 1) '1') = .error .digits := by
    refine Json.loads_long (by decide) (by decide) (fun c hc => ?_) ?_ _
    · rw [List.eq_of_mem_replicate hc]
      decide
    · rw [List.length_cons, List.length_replicate]
      omega
  have hloads : jsonLoads Prompt.cleaned (codes (List.replicate (n + 1) '1')) = .error .valueError := by
    rw [jsonLoads, Json.loadsText_codes, cleaned_ones, hlong]
  rw [call_ollamaReply, Prompt.parseTriageJson, hloads]
  rfl

omit [Platform] in
theorem call_once_open : ¬ Closed (@HttpJsonProvider.callOnce .ascii (@OllamaTriage.extractContent .ascii)
    (.response 200 (utf8Bytes (ollamaReply (List.replicate (4300 + 1) '1')).dumps))) := by
  rw [@call_long_integer .ascii .ascii _ (Nat.le_refl 4300)]
  intro h
  cases h

end CivicPulse
