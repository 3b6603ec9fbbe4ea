/-
  CivicPulse.Runs.Provenance — where a cached triage comes from.

  - `answer_source`: an answer from the cache is one that a call's provider gave.
  - `cached_provenance`: after any run from an empty triage cache, every entry encodes a
    provider's answer for a text and a location with its hash, every cached answer equals
    such an answer, and no fallback's answer is served from the cache.
-/

import CivicPulse.Runs.TriageCalls

namespace CivicPulse

open Text Lang

variable [Platform]

/-- The stored string reads back as this result and this provider's name. -/
def Encodes (raw : Raw) (r : TriageResult) (name : Str) : Prop :=
  ∃ j, JsonCache.loadsRaw raw = .ok j ∧ (subscript "result".toList j).bind TriageResult.modelValidate = .ok r ∧
    subscript "triaged_by".toList j = .ok (text name)

theorem encodes_cached (c : TriageCall) (r : TriageResult) : Encodes (.text (c.cached r)) r c.svc.provider.name :=
  ⟨_, loads_entry c r, r.modelValidate_dump, rfl⟩

/-- The provider of `c` gave the result for the call's text and location. -/
def Gave (log : List Event) (c : TriageCall) (r : TriageResult) : Prop :=
  ∃ tid, (⟨tid, .triage .primary c.svc.provider c.text c.location, .ok (some r)⟩ : Event) ∈ log

def TriageCall.hash (c : TriageCall) : Str := contentHash c.text c.location

variable {E : Env} {ι : Type} {calls : ι → TriageCall} {w₀ : World} {P : Pool (machine E) ι TriageOutcome}

theorem key_inj {c d : TriageCall} (h : c.key = d.key) : c.hash = d.hash := List.append_cancel_left h

/-- An answer from the cache is one a provider gave for a text and a location with the
    same hash. -/
theorem answer_source (h₀ : NoTriage w₀) (hP : TriageRun E calls w₀ P) {i : Nat} {x : ι} {o : TriageOutcome}
    (ht : P.threads i = some ⟨x, .ret o⟩) (hc : o.cached = true) :
    o.fallback = false ∧ ∃ y r, (calls y).hash = (calls x).hash ∧ o.result = some r ∧
      o.triagedBy = text (calls y).svc.provider.name ∧ Gave P.shared.log (calls y) r := by
  have hpath := (triage_ended h₀ hP ht).1 o rfl
  obtain ⟨ls, hls⟩ := triage_run h₀ hP
  obtain ⟨l, hl, -⟩ := hls.busy i _ ht
  rw [← hls.inv.own i l hl] at hpath
  generalize hr : Except.ok o = res at hpath
  cases hpath with
  | hit d r ms =>
    cases hr
    obtain ⟨y, r', tid, hk, hraw, hev⟩ := hls.inv.read i _ _ _ hl List.mem_cons_self ⟨_, rfl⟩
    obtain ⟨rfl, hn⟩ := cached_inj (Raw.text.inj hraw)
    exact ⟨rfl, y, r, (key_inj hk).symm, rfl, congrArg text hn, tid, hev⟩
  | provider g r s ms hg =>
    cases hr
    cases hc
  | fallback g a e r ms hg ha =>
    cases hr
    cases hc
  | failed g a e e' hg ha => cases hr

/-- What the triage cache of a run holds and serves. -/
structure Provenance (calls : ι → TriageCall) (P : Pool (machine E) ι TriageOutcome) : Prop where
  entries : ∀ h e, P.shared.redis (CACHE_PREFIX ++ h) = some e → ∃ raw x r, e.val = .str raw ∧ (calls x).hash = h ∧
    Encodes raw r (calls x).svc.provider.name ∧ Gave P.shared.log (calls x) r
  answers : ∀ i x o, P.threads i = some ⟨x, .ret o⟩ → o.cached = true → ∃ y r, (calls y).hash = (calls x).hash ∧
    o.result = some r ∧ o.triagedBy = text (calls y).svc.provider.name ∧ Gave P.shared.log (calls y) r
  no_fallback : ∀ i x o, P.threads i = some ⟨x, .ret o⟩ → o.cached = true →
    o.fallback = false ∧ o.triagedBy ≠ text FALLBACK_NAME

/-- Whatever the interleaving, the faults, the evictions and the providers' answers. -/
theorem cached_provenance (hname : ∀ x, (calls x).svc.provider.name ≠ FALLBACK_NAME) (h₀ : NoTriage w₀)
    (hP : TriageRun E calls w₀ P) : Provenance calls P where
  entries := by
    intro h e he
    obtain ⟨ls, hls⟩ := triage_run h₀ hP
    obtain ⟨raw, hv, x, r, tid, hk, hraw, hev⟩ := hls.inv.cache _ e ⟨_, rfl⟩ he
    refine ⟨raw, x, r, hv, (List.append_cancel_left hk).symm, ?_, tid, hev⟩
    rw [hraw]
    exact encodes_cached (calls x) r
  answers := by
    intro i x o ht hc
    exact (answer_source h₀ hP ht hc).2
  no_fallback := by
    intro i x o ht hc
    obtain ⟨hf, y, r, -, -, hby, -⟩ := answer_source h₀ hP ht hc
    refine ⟨hf, fun h => hname y (text_inj ?_)⟩
    rw [← hby, h]

/-- The provider outside the program answers as the rules do. -/
def likeRules : Env := .calm fun _ t l => (@Rules.triage .ascii t l).map some

/-- One complaint twice, on one replica; the second call is served from the cache. -/
def servedTwice : Pool (@machine .ascii likeRules) Unit TriageOutcome :=
  Pool.schedule (fun _ => @TriageCall.code .ascii burstPipe)
    (.start 0 () :: .start 1 () :: (List.replicate 12 (.exec 0) ++ List.replicate 12 (.exec 1)))
    (.fresh (.initial .empty))

omit [Platform] in
theorem cached_provenance_twice :
    (servedTwice.result 1).map (·.cached) = some true ∧ @Provenance .ascii likeRules Unit (fun _ => burstPipe) servedTwice :=
  ⟨by decide +kernel,
    @cached_provenance .ascii _ _ _ _ _ (fun _ => by decide) ⟨rfl, fun _ _ => rfl⟩ (Pool.schedule_steps _ _ _)⟩

end CivicPulse
