/-
  CivicPulse.Triage.Fences — code fences around a model's reply (`_FENCE` and
  `parse_triage_json` of `app/providers/triage/prompt.py`).

  A wrapping is white space outside, a fence before the text, a fence after it, each of the
  two perhaps left out. The pattern is looked for all over the stripped text. It finds the
  fence before, since only there is the start, and the fence after, since only there are
  backticks followed by the end; between the outer braces it finds nothing, whatever
  backticks stand there, as a `}` is still to come.
  - `matchAt_open`, `matchAt_close`, `matchAt_between`: the match at each position.
  - `cleaned_wrap`: what is decoded is the text itself, stripped.
  - `fences_transparent`: a wrapping changes neither the result nor the class of the error.
-/

import CivicPulse.Text.Objects
import CivicPulse.Triage.Reply

namespace CivicPulse

open Text

namespace Prompt

/-- White space. -/
abbrev Blank := { s : Str // ∀ c ∈ s, isSpace c = true }

def Blank.append (a b : Blank) : Blank := ⟨a.1 ++ b.1, fun c hc => (List.mem_append.mp hc).elim (a.2 c) (b.2 c)⟩

/-- Three backticks, perhaps the language, white space. -/
structure OpenFence where
  language : Str
  gap : Blank
  language_json : language = [] ∨ language.map Char.toLower = "json".toList

/-- White space, three backticks. -/
structure CloseFence where
  gap : Blank

def OpenFence.text (f : OpenFence) : Str := "```".toList ++ (f.language ++ f.gap.1)
def CloseFence.text (f : CloseFence) : Str := f.gap.1 ++ "```".toList

structure Wrapping where
  before : Blank
  opened : Option OpenFence
  closed : Option CloseFence
  after : Blank

def openText (f : Option OpenFence) : Str := f.elim [] OpenFence.text
def closeText (f : Option CloseFence) : Str := f.elim [] CloseFence.text

def Wrapping.wrap (w : Wrapping) (j : List CodePoint) : List CodePoint :=
  codes (w.before.1 ++ openText w.opened) ++ (j ++ codes (closeText w.closed ++ w.after.1))

/-- Nothing around the text. -/
def Wrapping.bare : Wrapping := ⟨⟨[], by simp⟩, none, none, ⟨[], by simp⟩⟩

/-! ## The matches -/

theorem language_json {l : Str} (h : l.map Char.toLower = "json".toList) :
    List.Forall₂ (fun a c => Re.eqIgnoreCase a c = true) "json".toList l := by
  rw [← h]
  refine List.forall₂_map_left_iff.mpr (List.forall₂_same.mpr fun c _ => ?_)
  simp [Re.eqIgnoreCase]

/-- White space and a brace are no language. -/
theorem not_language {prev : Option Char} {s : Str} (h : ∀ c ∈ s.head?, isSpace c = true ∨ c = '{') :
    (Re.lit Re.eqIgnoreCase "json".toList).matchAt (prev, s) = none := by
  refine Re.matchAt_eq_none.mpr fun q hq => ?_
  obtain ⟨v, u, rfl, hv, -⟩ := Re.mem_lit.mp hq
  rcases v with _ | ⟨c, v⟩
  · cases hv
  · have hc : Re.eqIgnoreCase 'j' c = true := by
      cases hv
      assumption
    have hlower : c.toLower = 'j' := by
      simpa [Re.eqIgnoreCase] using hc
    rcases h c rfl with hs | rfl
    · rw [toLower_space hs] at hlower
      rw [hlower] at hs
      exact absurd hs (by decide)
    · exact absurd hlower (by decide)

theorem head_gap (g : Blank) (rest : Str) : ∀ c ∈ (g.1 ++ '{' :: rest).head?, isSpace c = true ∨ c = '{' := by
  obtain ⟨g, hg⟩ := g
  intro c hc
  rcases g with _ | ⟨d, g⟩
  · cases hc
    exact .inr rfl
  · cases hc
    exact .inl (hg c List.mem_cons_self)

theorem matchAt_open (f : OpenFence) (rest : Str) :
    ∃ b, fence.matchAt (none, f.text ++ '{' :: rest) = some (b, '{' :: rest) := by
  have hstart : Re.bos.matchAt (none, "```".toList ++ (f.language ++ (f.gap.1 ++ '{' :: rest))) = some (none, _) := rfl
  have hgap : ∀ prev, (Re.many isSpace).matchAt (prev, f.gap.1 ++ '{' :: rest) = some (Re.lastOr prev f.gap.1, '{' :: rest) := by
    intro prev
    refine Re.matchAt_many f.gap.2 fun c hc => ?_
    cases hc
    decide
  obtain ⟨b, hlang⟩ : ∃ b, (Re.opt (.lit Re.eqIgnoreCase "json".toList)).matchAt
      (Re.lastOr none "```".toList, f.language ++ (f.gap.1 ++ '{' :: rest)) = some (b, f.gap.1 ++ '{' :: rest) := by
    rw [Re.matchAt_opt]
    rcases f.language_json with hl | hl
    · rw [hl, List.nil_append, not_language (head_gap f.gap rest)]
      exact ⟨_, rfl⟩
    · rw [Re.matchAt_lit (language_json hl)]
      exact ⟨_, rfl⟩
  have hfirst := Re.matchAt_seq hstart (Re.matchAt_seq (Re.matchAt_word "```".toList) (Re.matchAt_seq hlang (hgap b)))
  refine ⟨Re.lastOr b f.gap.1, ?_⟩
  rw [fence, Re.matchAt_alt, OpenFence.text, List.append_assoc, List.append_assoc, hfirst]
  rfl

theorem matchAt_close (f : CloseFence) (c : Char) : ∃ b, fence.matchAt (some c, f.text) = some (b, []) := by
  have hgap : (Re.many isSpace).matchAt (some c, f.gap.1 ++ "```".toList) = some (Re.lastOr (some c) f.gap.1, "```".toList) := by
    refine Re.matchAt_many f.gap.2 fun d hd => ?_
    cases hd
    decide
  have hticks : ∀ prev, (Re.lit (· == ·) "```".toList).matchAt (prev, "```".toList) = some (Re.lastOr prev "```".toList, []) :=
    fun prev => Re.matchAt_word (u := []) "```".toList
  have hend : ∀ prev, Re.eos.matchAt (prev, []) = some (prev, []) := fun _ => rfl
  have hlast := Re.matchAt_seq hgap (Re.matchAt_seq (hticks _) (hend _))
  refine ⟨Re.lastOr (Re.lastOr (some c) f.gap.1) "```".toList, ?_⟩
  rw [fence, Re.matchAt_alt, CloseFence.text, hlast]
  rfl

/-- Between the braces nothing matches: backticks there are not at the start, and a brace
    is still to come. -/
theorem matchAt_between {prev : Option Char} {m v w : Str} (he : '{' :: (m ++ ['}']) = v ++ w) (hw : w ≠ []) (t : Str) :
    fence.matchAt (Re.lastOr prev v, w ++ t) = none := by
  have hbrace : '}' ∈ w := by
    have hlast : w.getLast? = some '}' := by
      rw [← List.getLast?_append_of_ne_nil v hw, ← he, ← List.cons_append, List.getLast?_concat]
    exact List.mem_of_getLast? hlast
  refine Re.matchAt_eq_none.mpr fun q hq => ?_
  rcases fence_ends hq with ⟨hprev, u, hu⟩ | ⟨sp, u, hu, hsp, htail⟩
  · rcases v with _ | ⟨c, v⟩
    · obtain rfl : '{' :: (m ++ ['}']) = w := he
      cases hu
    · obtain ⟨d, hd⟩ := Re.lastOr_some c v
      rw [Re.lastOr_cons, hd] at hprev
      cases hprev
  · have hmem : '}' ∈ sp ++ ("```".toList ++ u) := hu ▸ List.mem_append_left t hbrace
    rcases List.mem_append.mp hmem with hm | hm
    · exact absurd (hsp _ hm) (by decide)
    · rcases htail with rfl | rfl
      · exact absurd hm (by decide)
      · exact absurd hm (by decide)

/-! ## The text that is left -/

theorem tokens_open (f : Option OpenFence) (rest : Str) :
    ∃ b l, fence.tokensFrom (none, openText f ++ '{' :: rest) = l ++ fence.tokensFrom (b, '{' :: rest) ∧
      Re.join (fun _ => []) l = [] := by
  cases f with
  | none => exact ⟨none, [], rfl, rfl⟩
  | some f =>
    obtain ⟨b, hb⟩ := matchAt_open f rest
    exact ⟨b, [.inr f.text], Re.tokensFrom_match (List.cons_ne_nil _ _) hb, rfl⟩

theorem tokens_close (f : Option CloseFence) (c : Char) :
    Re.join (fun _ => []) (fence.tokensFrom (some c, closeText f)) = [] := by
  cases f with
  | none => rfl
  | some f =>
    obtain ⟨b, hb⟩ := matchAt_close f c
    have hne : f.text ≠ [] := List.append_ne_nil_of_right_ne_nil _ (List.cons_ne_nil _ _)
    have htokens := Re.tokensFrom_match (t := []) hne (by rwa [List.append_nil])
    rw [List.append_nil] at htokens
    show Re.join _ (fence.tokensFrom (some c, f.text)) = []
    rw [htokens]
    rfl

theorem sub_fences (f : Option OpenFence) (g : Option CloseFence) (m : Str) :
    fence.sub (fun _ => []) (openText f ++ ('{' :: (m ++ ['}']) ++ closeText g)) = '{' :: (m ++ ['}']) := by
  obtain ⟨b, l, hopen, hl⟩ := tokens_open f (m ++ ['}'] ++ closeText g)
  have hbetween : fence.tokensFrom (b, '{' :: (m ++ ['}']) ++ closeText g) =
      ('{' :: (m ++ ['}'])).map .inl ++ fence.tokensFrom (Re.lastOr b ('{' :: (m ++ ['}'])), closeText g) :=
    Re.tokensFrom_append fun v w he hw => matchAt_between he hw _
  obtain ⟨d, hd⟩ := Re.lastOr_some '{' (m ++ ['}'])
  rw [Re.lastOr_cons, hd] at hbetween
  show Re.join _ (fence.tokensFrom (none, openText f ++ '{' :: (m ++ ['}'] ++ closeText g))) = _
  rw [hopen, Re.join_append, hl, List.nil_append]
  show Re.join _ (fence.tokensFrom (b, '{' :: (m ++ ['}']) ++ closeText g)) = _
  rw [hbetween, Re.join_append, Re.join_plain, tokens_close, List.append_nil]

/-- White space between a fence and the text is the fence's. -/
theorem strip_open (f : Option OpenFence) (a : Blank) (s : Str) :
    ∃ f', strip (openText f ++ (a.1 ++ s)) = strip (openText f' ++ s) := by
  cases f with
  | none =>
    have hdrop := stripBy_append a.2 (b := []) (by simp) s
    rw [List.append_nil] at hdrop
    exact ⟨none, hdrop⟩
  | some f =>
    refine ⟨some { f with gap := f.gap.append a }, congrArg strip ?_⟩
    show f.text ++ (a.1 ++ s) = "```".toList ++ (f.language ++ (f.gap.1 ++ a.1)) ++ s
    simp only [OpenFence.text, List.append_assoc]

theorem strip_close (g : Option CloseFence) (b : Blank) (s : Str) :
    ∃ g', strip (s ++ (b.1 ++ closeText g)) = strip (s ++ closeText g') := by
  cases g with
  | none =>
    have hdrop := stripBy_append (a := []) (by simp) b.2 s
    refine ⟨none, ?_⟩
    show strip (s ++ (b.1 ++ [])) = strip (s ++ [])
    rw [List.append_nil, List.append_nil]
    exact hdrop
  | some g =>
    refine ⟨some { gap := b.append g.gap }, congrArg (fun t => strip (s ++ t)) ?_⟩
    show b.1 ++ g.text = b.1 ++ g.gap.1 ++ "```".toList
    rw [CloseFence.text, List.append_assoc]

/-- A fence or a brace at each end. -/
theorem strip_fenced (f : Option OpenFence) (g : Option CloseFence) (m : Str) :
    strip (openText f ++ ('{' :: (m ++ ['}']) ++ closeText g)) = openText f ++ ('{' :: (m ++ ['}']) ++ closeText g) := by
  have hbrace : ('{' :: (m ++ ['}'])).getLast? = some '}' := by rw [← List.cons_append, List.getLast?_concat]
  refine stripBy_eq_self_iff.mpr ⟨fun c hc => ?_, fun c hc => ?_⟩
  · cases f with
    | none =>
      cases hc
      decide
    | some f =>
      cases hc
      decide
  · rw [List.getLast?_append, List.getLast?_append, hbrace] at hc
    cases g with
    | none =>
      cases hc
      decide
    | some g =>
      have htick : (closeText (some g)).getLast? = some (Char.ofNat 96) := by
        show (g.gap.1 ++ "```".toList).getLast? = _
        rw [List.getLast?_append]
        rfl
      rw [htick] at hc
      cases hc
      decide

/-- What is decoded, of a text between braces. -/
theorem cleaned_wrapped (w : Wrapping) {s m : Str} (hs : strip s = '{' :: (m ++ ['}'])) :
    cleaned (w.before.1 ++ openText w.opened ++ (s ++ (closeText w.closed ++ w.after.1))) = strip s := by
  obtain ⟨a, b, ha, hb, hsplit⟩ := stripBy_split (p := isSpace) s
  obtain ⟨f, hf⟩ := strip_open w.opened ⟨a, ha⟩ (strip s ++ (b ++ closeText w.closed))
  obtain ⟨g, hg⟩ := strip_close w.closed ⟨b, hb⟩ (openText f ++ strip s)
  have hstrip : strip (w.before.1 ++ openText w.opened ++ (s ++ (closeText w.closed ++ w.after.1))) =
      openText f ++ ('{' :: (m ++ ['}']) ++ closeText g) := by
    calc strip (w.before.1 ++ openText w.opened ++ (s ++ (closeText w.closed ++ w.after.1)))
        = strip (w.before.1 ++ (openText w.opened ++ (s ++ closeText w.closed) ++ w.after.1)) := by simp only [List.append_assoc]
      _ = strip (openText w.opened ++ (s ++ closeText w.closed)) := stripBy_append w.before.2 w.after.2 _
      _ = strip (openText w.opened ++ (a ++ (strip s ++ (b ++ closeText w.closed)))) := by
          conv_lhs => rw [hsplit]
          simp only [strip, List.append_assoc]
      _ = strip (openText f ++ strip s ++ (b ++ closeText w.closed)) := by rw [hf, List.append_assoc]
      _ = strip (openText f ++ ('{' :: (m ++ ['}']) ++ closeText g)) := by rw [hg, hs, List.append_assoc]
      _ = _ := strip_fenced f g m
  rw [cleaned, hstrip, sub_fences, hs]

theorem cleaned_bare {s m : Str} (hs : strip s = '{' :: (m ++ ['}'])) : cleaned s = strip s := by
  have hbare := cleaned_wrapped .bare hs
  simpa only [Wrapping.bare, openText, closeText, Option.elim, List.append_nil, List.nil_append] using hbare

/-- In either reading of a text with surrogates. -/
theorem cleaned_wrap {j : List CodePoint} (hj : Braced j) (w : Wrapping) {base : Nat} (hb : 0xE000 ≤ base) :
    cleaned (view base (w.wrap j)) = view base (stripCodes j) := by
  obtain ⟨m, hm⟩ := (braced_iff hb).mp hj
  rw [Wrapping.wrap, Json.view_append, Json.view_append, Json.view_codes, Json.view_codes, cleaned_wrapped w hm,
    view_stripCodes hb]

variable [Platform]

theorem loads_wrap {j : List CodePoint} (hj : Braced j) (w : Wrapping) : jsonLoads cleaned (w.wrap j) = jsonLoads id (stripCodes j) := by
  unfold jsonLoads Json.loadsText
  rw [cleaned_wrap hj w (by decide), cleaned_wrap hj w (by decide)]
  rfl

theorem parse_wrap {j : List CodePoint} (hj : Braced j) (w : Wrapping) : parseTriageJson (w.wrap j) = parseTriageJson j := by
  have hbare : Wrapping.bare.wrap j = j := List.append_nil j
  have hloads : jsonLoads cleaned (w.wrap j) = jsonLoads cleaned j := by
    calc jsonLoads cleaned (w.wrap j) = jsonLoads id (stripCodes j) := loads_wrap hj w
      _ = jsonLoads cleaned (Wrapping.bare.wrap j) := (loads_wrap hj Wrapping.bare).symm
      _ = jsonLoads cleaned j := by rw [hbare]
  rw [parseTriageJson, parseTriageJson, hloads]

/-- A result reads back from its own text. -/
theorem parse_dump (r : TriageResult) : parseTriageJson (codes r.modelDump.dumps) = .ok r := by
  have hstrip : strip r.modelDump.dumps = r.modelDump.dumps := by
    obtain ⟨m, hm⟩ := Json.dumps_braces r.dumpItems
    rw [TriageResult.modelDump, hm]
    exact stripBy_self (by decide) (by decide) m
  have hclean : cleaned r.modelDump.dumps = r.modelDump.dumps := by
    obtain ⟨m, hm⟩ := Json.dumps_braces r.dumpItems
    exact (cleaned_bare (hstrip.trans hm)).trans hstrip
  have hdepth : r.modelDump.depth ≤ recursionLimit := Nat.le_trans (by rw [r.depth_dump]; decide) Platform.recursionLimit_ge
  have hloads : jsonLoads cleaned (codes r.modelDump.dumps) = .ok r.modelDump := by
    rw [jsonLoads, Json.loadsText_codes, hclean, Json.loads_dumps r.plain_dump hdepth]
  rw [parseTriageJson, hloads]
  show mapError _ (TriageResult.modelValidate r.modelDump) = _
  rw [r.modelValidate_dump]
  rfl

/-- A text between braces, every object's among them, gives the same with and without
    fences and white space around it; what is decoded is the text, stripped. -/
theorem fences_transparent (j : List CodePoint) :
    (Braced j → ∀ w : Wrapping, parseTriageJson (w.wrap j) = parseTriageJson j ∧
      ∀ base, 0xE000 ≤ base → cleaned (view base (w.wrap j)) = view base (stripCodes j)) ∧
    ∀ limit l, Json.loadsText limit id j = .ok (.obj l) → Braced j :=
  ⟨fun hj w => ⟨parse_wrap hj w, fun _ hb => cleaned_wrap hj w hb⟩, fun _ _ h => Json.braced_of_object h⟩

/-- A summary with a fence of its own. -/
def fenced : TriageResult :=
  ⟨.roads, .normal, "```json pothole```".toList, .fin ⟨8, 0⟩, by decide, by decide, by decide, by decide, rfl, rfl⟩

def fencing : Wrapping :=
  let newline : Blank := ⟨['\n'], List.forall_mem_singleton.mpr rfl⟩
  ⟨newline, some ⟨"JSON".toList, newline, by decide⟩, some ⟨newline⟩, newline⟩

omit [Platform] in
theorem fences_transparent_fenced :
    @parseTriageJson .ascii (fencing.wrap (codes fenced.modelDump.dumps)) = .ok fenced := by
  have hobj : Json.loadsText 1 id (codes fenced.modelDump.dumps) = .ok (.obj fenced.dumpItems) := by
    rw [Json.loadsText_codes, id, Json.loads_dumps fenced.plain_dump (Nat.le_of_eq fenced.depth_dump)]
    rfl
  have htransparent := @fences_transparent .ascii (codes fenced.modelDump.dumps)
  exact (htransparent.1 (htransparent.2 1 _ hobj) fencing).1.trans (@parse_dump .ascii fenced)

end Prompt

end CivicPulse
