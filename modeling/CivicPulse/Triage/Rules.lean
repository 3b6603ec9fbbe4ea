/-
  CivicPulse.Triage.Rules — the keyword classifier (`app/providers/triage/rules.py`).

  Scores count the keywords of each category that occur in the lower-cased text; ties
  go to the category declared first. The summary is the category, the location and the
  text on one line, cut to length, and is validated like any provider's.
  - `categoryOf_congr` / `priorityOf_congr`: the classification depends only on which
    keywords occur.
-/

import CivicPulse.Schemas
import CivicPulse.Text.Regex

namespace CivicPulse

open Text

def KEYWORDS : Category → List Str
  | .water =>
    ["water".toList, "pipe".toList, "burst".toList, "leak".toList, "flood".toList, "tap".toList, "supply".toList,
     "pani".toList, "tanker".toList, "main line".toList, "overflowing tank".toList, "no water".toList]
  | .electricity =>
    ["electric".toList, "electricity".toList, "power".toList, "outage".toList, "load shedding".toList,
     "loadshedding".toList, "transformer".toList, "wire".toList, "bijli".toList, "voltage".toList, "meter".toList,
     "shock".toList, "sparking".toList]
  | .sanitation =>
    ["garbage".toList, "trash".toList, "waste".toList, "sewage".toList, "sewer".toList, "gutter".toList,
     "drain".toList, "smell".toList, "kachra".toList, "overflow".toList, "nala".toList, "dump".toList,
     "mosquito".toList]
  | .roads =>
    ["road".toList, "pothole".toList, "sarak".toList, "asphalt".toList, "speed breaker".toList, "footpath".toList,
     "crack".toList, "bridge".toList, "construction".toList, "traffic signal".toList, "manhole".toList]
  | .streetlights =>
    ["streetlight".toList, "street light".toList, "street-light".toList, "lamp".toList, "pole light".toList,
     "light pole".toList, "dark street".toList]
  | .other => []

/-- The keys of `KEYWORDS`, in declaration order. -/
def scoredCategories : List Category := [.water, .electricity, .sanitation, .roads, .streetlights]

def HIGH_WORDS : List Str :=
  ["burst".toList, "flood".toList, "fire".toList, "sparking".toList, "shock".toList, "live wire".toList,
   "danger".toList, "emergency".toList, "urgent".toList, "injur".toList, "accident".toList, "collapse".toList,
   "child".toList, "hospital".toList, "since fajr".toList, "since yesterday".toList, "entering".toList,
   "open manhole".toList, "no water for".toList, "3 days".toList, "three days".toList]

def LOW_WORDS : List Str :=
  ["suggestion".toList, "request".toList, "minor".toList, "whenever possible".toList, "cosmetic".toList,
   "paint".toList, "faded".toList]

namespace Rules

/-- `_WS`. -/
def ws : Re := .seq (.set isSpace) (.many isSpace)

def score (text : Str) (words : List Str) : Nat := words.countP (contains text)

/-- `max(scores, key=…)`: the first category with the highest score. -/
def best (lowered : Str) : Category :=
  scoredCategories.foldl (fun b c => if score lowered (KEYWORDS b) < score lowered (KEYWORDS c) then c else b) .water

def categoryOf (lowered : Str) : Category :=
  if 0 < score lowered (KEYWORDS (best lowered)) then best lowered else .other

def priorityOf (lowered : Str) : Priority :=
  if 0 < score lowered HIGH_WORDS then .high
  else if 0 < score lowered LOW_WORDS then .low
  else .normal

/-- `str.capitalize()` of an ASCII word. -/
def capitalize : Str → Str
  | [] => []
  | c :: s => c.toUpper :: s.map Char.toLower

/-- The summary before it is validated. -/
def summaryOf (category : Category) (text location : Str) : Str :=
  let summary := strip (ws.sub (fun _ => [' ']) text)
  let full := capitalize (value category) ++ " issue at ".toList ++ strip location ++ ": ".toList ++ summary
  if SUMMARY_MAX < full.length then rstrip (full.take (SUMMARY_MAX - 1)) ++ ['…'] else full

def confidenceOf (category : Category) (matched : Nat) : PyFloat :=
  if category = .other then .fin ⟨3, 0⟩ else .fin ⟨min 9 (5 + matched), 0⟩

/-- `RuleBasedTriage.triage`. -/
def triage [Platform] (text location : Str) : Except Exc TriageResult :=
  let lowered := lower text
  let category := categoryOf lowered
  TriageResult.ofFields category (priorityOf lowered) (summaryOf category text location)
    (confidenceOf category (score lowered (KEYWORDS (best lowered))))

/-! ## Classification -/

/-- The category and the priority depend on which keywords occur, and on nothing else. -/
theorem categoryOf_congr {a b : Str} (h : ∀ c, ∀ w ∈ KEYWORDS c, contains a w = contains b w) :
    categoryOf a = categoryOf b := by
  have hs : ∀ c, score a (KEYWORDS c) = score b (KEYWORDS c) := fun c => List.countP_congr fun w hw => by rw [h c w hw]
  have hb : best a = best b := by simp only [best, hs]
  simp only [categoryOf, hb, hs]

theorem priorityOf_congr {a b : Str} (h : ∀ w ∈ HIGH_WORDS ++ LOW_WORDS, contains a w = contains b w) :
    priorityOf a = priorityOf b := by
  have hh : score a HIGH_WORDS = score b HIGH_WORDS :=
    List.countP_congr fun w hw => by rw [h w (List.mem_append_left _ hw)]
  have hl : score a LOW_WORDS = score b LOW_WORDS :=
    List.countP_congr fun w hw => by rw [h w (List.mem_append_right _ hw)]
  simp only [priorityOf, hh, hl]

/-- A result carries the classification of its lower-cased text. -/
theorem triage_ok [Platform] {text location : Str} {r : TriageResult} (h : triage text location = .ok r) :
    r.category = categoryOf (lower text) ∧ r.priority = priorityOf (lower text) := by
  obtain ⟨hc, hp, -⟩ := TriageResult.ofFields_ok h
  exact ⟨hc, hp⟩

end Rules

end CivicPulse
