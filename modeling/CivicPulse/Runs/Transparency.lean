/-
  CivicPulse.Runs.Transparency — the triage cache in front of the keyword rules.

  The rules search the lower-cased text; the hash is taken of it with its white space
  collapsed, and with the location behind a bar. A keyword of one word does not see the
  difference (`classify_congr`); one of several words does, and so does every keyword when
  the bar moves.
  - `answer_ruled`: an answer carries the classification of a complaint with its hash.
  - `cache_transparent`: when no two complaints of a run are confused so, every answer has
    the category and the priority the rules compute for its own complaint.
-/

import CivicPulse.Runs.Provenance
import CivicPulse.Services.ContentHash

namespace CivicPulse

open Text Lang

/-! ## Which keywords occur -/

/-- Every keyword the rules look for. -/
def words : List Str := scoredCategories.flatMap KEYWORDS ++ HIGH_WORDS ++ LOW_WORDS

/-- The keywords among `ws` that occur in the one text occur in the other. -/
def SameWords (ws : List Str) (a b : Str) : Prop := ∀ w ∈ ws, contains a w = contains b w

/-- The keywords of several words. -/
def phrases : List Str := words.filter fun w => w.contains ' '

theorem classify_sameWords {a b : Str} (h : SameWords words a b) :
    Rules.categoryOf a = Rules.categoryOf b ∧ Rules.priorityOf a = Rules.priorityOf b := by
  refine ⟨Rules.categoryOf_congr fun c w hw => h w ?_, Rules.priorityOf_congr fun w hw => h w ?_⟩
  · have hc : c ∈ scoredCategories := by
      cases c with
      | other => cases hw
      | _ => decide
    exact List.mem_append_left _ (List.mem_append_left _ (List.mem_flatMap.mpr ⟨c, hc, hw⟩))
  · rcases List.mem_append.mp hw with hw | hw
    · exact List.mem_append_left _ (List.mem_append_right _ hw)
    · exact List.mem_append_right _ hw

/-- Respacing a text matters to the phrases only. -/
theorem classify_congr {a b : Str} (hab : collapse a = collapse b) (h : SameWords phrases a b) : SameWords words a b := by
  have hall : words.all (fun w => w.contains ' ' || (!w.isEmpty && w.all fun c => !isSpace c)) = true := by decide +kernel
  have hwords : ∀ w ∈ words, w.contains ' ' = false → w ≠ [] ∧ ∀ c ∈ w, isSpace c = false := by
    intro w hw hsp
    have h := List.all_eq_true.mp hall w hw
    rw [hsp, Bool.false_or] at h
    simpa using h
  intro w hw
  by_cases hp : w.contains ' ' = true
  · exact h w (List.mem_filter.mpr ⟨hw, hp⟩)
  · obtain ⟨hne, hsp⟩ := hwords w hw (by simpa using hp)
    rw [← contains_collapse hne hsp a, ← contains_collapse hne hsp b, hab]

/-! ## Complaints the cache may confuse -/

variable [Platform]

/-- Where the two normal forms are one, the rules see the same keywords. -/
structure Alike (c d : TriageCall) : Prop where
  spaces : normalised c.text = normalised d.text → normalised c.location = normalised d.location →
    SameWords phrases (lower c.text) (lower d.text)
  bars : BarShift (normalised c.text) (normalised c.location) (normalised d.text) (normalised d.location) →
    SameWords words (lower c.text) (lower d.text)

theorem sameWords_of_hash (hsha : Function.Injective (sha256 : Str → Str)) {c d : TriageCall} (hcd : Alike c d)
    (hdc : Alike d c) (h : c.hash = d.hash) : SameWords words (lower c.text) (lower d.text) := by
  rcases (contentHash_eq_iff hsha c.text c.location d.text d.location).mp h with h | h | h
  · exact classify_congr h.1 (hcd.spaces h.1 h.2)
  · exact hcd.bars h
  · intro w hw
    exact (hdc.bars h w hw).symm

/-! ## Answers -/

/-- The answer has the category and the priority that the rules compute for the call. -/
def Agrees (c : TriageCall) (o : TriageOutcome) : Prop :=
  ∃ r, o.result = some r ∧ r.category = Rules.categoryOf (lower c.text) ∧ r.priority = Rules.priorityOf (lower c.text) ∧
    ∀ r', Rules.triage c.text c.location = .ok r' → r.category = r'.category ∧ r.priority = r'.priority

variable {E : Env} {ι : Type} {calls : ι → TriageCall} {w₀ : World} {P : Pool (machine E) ι TriageOutcome}

omit [Platform] in
theorem replies_rules [Platform] {text location : Str} {a : Except Exc (Option TriageResult)} {r : Option TriageResult}
    (h : Replies E .rules text location a) (ha : a = .ok r) : ∃ r', r = some r' ∧ Rules.triage text location = .ok r' := by
  rw [show a = _ from h] at ha
  cases ht : Rules.triage text location with
  | ok r' =>
    rw [ht] at ha
    cases ha
    exact ⟨r', rfl, rfl⟩
  | error e =>
    rw [ht] at ha
    cases ha

/-- An answer is what the rules gave for a complaint with the same hash. -/
theorem answer_ruled (hrules : ∀ x, (calls x).svc.provider = .rules ∧ (calls x).svc.fallback = .rules) (h₀ : NoTriage w₀)
    (hP : TriageRun E calls w₀ P) {i : Nat} {x : ι} {o : TriageOutcome} (ht : P.threads i = some ⟨x, .ret o⟩) :
    ∃ y r, (calls y).hash = (calls x).hash ∧ o.result = some r ∧
      Rules.triage (calls y).text (calls y).location = .ok r := by
  obtain ⟨ls, hls⟩ := triage_run h₀ hP
  have hlog : ∀ d ∈ (P.shared.trace i).filter (fun d => recorded d.1), (⟨i, d.1, d.2⟩ : Event) ∈ P.shared.log :=
    fun d hd => World.mem_trace.mp (List.mem_filter.mp hd).1
  have hpath := (triage_ended h₀ hP ht).1 o rfl
  generalize hr : Except.ok o = res at hpath
  generalize hl : (P.shared.trace i).filter (fun d => recorded d.1) = l at hpath hlog
  cases hpath with
  | hit d r ms =>
    cases hr
    obtain ⟨-, y, r', hh, hres, -, tid, hev⟩ := answer_source h₀ hP ht rfl
    have hrep := hls.inv.answered _ _ _ _ _ _ hev
    rw [(hrules y).1] at hrep
    obtain ⟨r'', hr'', hok⟩ := replies_rules hrep rfl
    cases hr''
    exact ⟨y, r', hh, hres, hok⟩
  | provider g r s ms hg =>
    cases hr
    have hrep := hls.inv.answered _ _ _ _ _ _
      (hlog (didAsk .primary _ _ _ _) (List.mem_cons_of_mem _ List.mem_cons_self))
    rw [(hrules x).1] at hrep
    obtain ⟨r', hr', hok⟩ := replies_rules hrep rfl
    cases hr'
    exact ⟨x, r, rfl, rfl, hok⟩
  | fallback g a e r ms hg ha =>
    cases hr
    have hrep := hls.inv.answered _ _ _ _ _ _ (hlog (didAsk .fallback _ _ _ _) List.mem_cons_self)
    rw [(hrules x).2] at hrep
    obtain ⟨r', hr', hok⟩ := replies_rules hrep rfl
    exact ⟨x, r', rfl, hr', hok⟩
  | failed g a e e' hg ha => cases hr

/-- In every run whose complaints are alike wherever their normal forms are one, every
    answer agrees with the rules, served from the cache or not. -/
theorem cache_transparent (hsha : Function.Injective (sha256 : Str → Str))
    (hrules : ∀ x, (calls x).svc.provider = .rules ∧ (calls x).svc.fallback = .rules)
    (halike : ∀ x y, Alike (calls x) (calls y)) (h₀ : NoTriage w₀) (hP : TriageRun E calls w₀ P) (i : Nat) (x : ι)
    (o : TriageOutcome) (ht : P.threads i = some ⟨x, .ret o⟩) : Agrees (calls x) o := by
  obtain ⟨y, r, hh, hres, hok⟩ := answer_ruled hrules h₀ hP ht
  obtain ⟨hcat, hprio⟩ := classify_sameWords (sameWords_of_hash hsha (halike y x) (halike x y) hh)
  obtain ⟨hc, hp⟩ := Rules.triage_ok hok
  refine ⟨r, hres, hc.trans hcat, hp.trans hprio, fun r' hr' => ?_⟩
  obtain ⟨hc', hp'⟩ := Rules.triage_ok hr'
  exact ⟨(hc.trans hcat).trans hc'.symm, (hp.trans hprio).trans hp'.symm⟩

/-! ## A wire -/

omit [Platform] in
section

/-- A complaint to the rules, by its text. -/
def about (t : String) : TriageCall := ⟨⟨.rules, .rules, 86400⟩, [], t.toList, "Street 12".toList⟩

/-- Two calls, one after the other, of two texts. -/
def inTurn (t : Bool → String) : Pool (@machine .ascii (.calm fun _ _ _ => .error .triageTimeout)) Bool TriageOutcome :=
  Pool.schedule (fun b => @TriageCall.code .ascii (about (t b)))
    (.start 0 false :: .start 1 true :: (List.replicate 12 (.exec 0) ++ List.replicate 12 (.exec 1)))
    (.fresh (.initial .empty))

/-- The texts differ in spaces and letters, and hold no phrase. -/
def burst (second : Bool) : String := if second then "water pipe burst near school" else "Water pipe  burst near School"

theorem cache_transparent_burst :
    ∃ o x, (inTurn burst).threads 1 = some ⟨x, .ret o⟩ ∧ o.cached = true ∧ @Agrees .ascii (about (burst x)) o := by
  have hwords : ∀ x y, ∀ w ∈ words, contains ((burst x).toList.map Char.toLower) w =
      contains ((burst y).toList.map Char.toLower) w := by decide +kernel
  have halike : ∀ x y, @Alike .ascii (about (burst x)) (about (burst y)) := fun x y =>
    @Alike.mk .ascii _ _ (fun _ _ w hw => hwords x y w (List.mem_filter.mp hw).1) fun _ => hwords x y
  have h₀ : NoTriage (.initial .empty) := ⟨rfl, fun _ _ => rfl⟩
  have hrun : @TriageRun .ascii _ _ (fun b => about (burst b)) (.initial .empty) (inTurn burst) :=
    Pool.schedule_steps _ _ _
  have hcached : ((inTurn burst).result 1).map (·.cached) = some true := by decide +kernel
  obtain ⟨o, ho, hc⟩ := Option.map_eq_some_iff.mp hcached
  obtain ⟨x, hx⟩ := Pool.result_some ho
  exact ⟨o, x, hx, hc, @cache_transparent .ascii _ _ _ _ _ Platform.digest_injective (fun _ => ⟨rfl, rfl⟩) halike h₀ hrun
    1 x o hx⟩

/-- The doubled space hides a live wire from the rules. -/
def wire (second : Bool) : String := if second then "there is a live wire here" else "there is a live  wire here"

/-- The cache then hides the next one: it is answered with normal priority, where the rules
    alone say high. -/
theorem cache_not_transparent :
    ((inTurn wire).result 1).bind (fun o => o.result.map (·.priority)) = some .normal ∧
      (@Rules.triage .ascii (about (wire true)).text (about (wire true)).location).toOption.map (·.priority) = some .high :=
  ⟨by decide +kernel, by decide +kernel⟩

end

end CivicPulse
