/-
  CivicPulse.Runs.Orchestration — what one triage call does, whatever its neighbours do,
  whichever Redis commands fail and whatever the provider answers.

  - `path_spec`: each of the four ways keeps to the contract.
  - `triage_total`: a call whose fallback answers returns, asks the provider at most once
    and not at all on a hit, and asks the fallback exactly when the provider failed.
-/

import CivicPulse.Runs.TriageCalls
import CivicPulse.Services.Footprint

namespace CivicPulse

open Text Lang

/-! ## The contract of a call -/

/-- A call of the provider in this role. -/
def asks (role : Role) : Op → Bool
  | .triage role' _ _ _ => role' == role
  | _ => false

/-- How often a trace asks the provider in a role. -/
def asked (role : Role) (l : List Done) : Nat := l.countP fun d => asks role d.1

/-- The provider was asked and gave no result. -/
def AttemptFailed (c : TriageCall) (l : List Done) : Prop :=
  ∃ a, didAsk .primary c.svc.provider c.text c.location a ∈ l ∧ ∀ r, a ≠ .ok (some r)

structure TriageSpec [Platform] (c : TriageCall) (l : List Done) (o : TriageOutcome) : Prop where
  primary_le : asked .primary l ≤ 1
  cached_alone : o.cached = true → asked .primary l = 0
  fallback_iff : (AttemptFailed c l → asked .fallback l = 1) ∧ (¬ AttemptFailed c l → asked .fallback l = 0)
  name_iff : o.fallback = true ↔ o.triagedBy = text FALLBACK_NAME
  error_iff : o.fallback = true ↔ o.error.isSome = true
  cached_not : o.cached = true → o.fallback = false
  no_write : o.fallback = true → ∀ v ex s, didSet c.key v ex s ∉ l

variable [Platform]

/-- Each way keeps to the contract, when no provider is called like the fallback. -/
theorem path_spec {c : TriageCall} {l : List Done} {o : TriageOutcome} (h : TriagePath c l (.ok o))
    (hname : ∀ d r, didGet c.key (.ok (some (.text (TriageCall.cached d r)))) ∈ l → d.svc.provider.name ≠ FALLBACK_NAME)
    (hown : c.svc.provider.name ≠ FALLBACK_NAME) : TriageSpec c l o := by
  have hfailed : ∀ {a : Except Exc (Option TriageResult)} {e : Exc}, Failed a e → ∀ r, a ≠ .ok (some r) := by
    intro a e ha r hr
    rcases ha with rfl | ⟨rfl, _⟩ <;> cases hr
  generalize hr : Except.ok o = res at h
  cases h with
  | hit d r ms =>
    cases hr
    have hno : ¬ AttemptFailed c [didGet c.key (.ok (some (.text (d.cached r))))] := by
      intro h
      obtain ⟨a, ha, -⟩ := h
      cases List.mem_singleton.mp ha
    have hn : d.svc.provider.name ≠ FALLBACK_NAME := hname d r List.mem_cons_self
    refine ⟨Nat.zero_le _, fun _ => rfl, ⟨fun h => absurd h hno, fun _ => rfl⟩, ?_, by simp, fun _ => rfl, ?_⟩
    · exact ⟨fun h => (by cases h), fun h => absurd (text_inj h) hn⟩
    · intro h; cases h
  | provider g r s ms hg =>
    cases hr
    have hno : ¬ AttemptFailed c [didSet c.key (c.cached r) c.svc.ttl s,
        didAsk .primary c.svc.provider c.text c.location (.ok (some r)), didGet c.key g] := by
      intro h
      obtain ⟨a, ha, hbad⟩ := h
      simp only [List.mem_cons, List.not_mem_nil, or_false] at ha
      rcases ha with ha | ha | ha
      · cases ha
      · cases ha
        exact hbad r rfl
      · cases ha
    refine ⟨Nat.le_refl _, fun h => (by cases h), ⟨fun h => absurd h hno, fun _ => rfl⟩, ?_, by simp, fun _ => rfl, ?_⟩
    · exact ⟨fun h => (by cases h), fun h => absurd (text_inj h) hown⟩
    · intro h; cases h
  | fallback g a e r ms hg ha =>
    cases hr
    refine ⟨Nat.le_refl _, fun h => (by cases h), ⟨fun _ => rfl, fun h => ?_⟩, ?_, by simp, fun h => (by cases h), ?_⟩
    · exact absurd ⟨a, by simp, hfailed ha⟩ h
    · exact ⟨fun _ => rfl, fun _ => rfl⟩
    · intro _ v ex s hmem
      simp only [List.mem_cons, List.not_mem_nil, or_false] at hmem
      rcases hmem with h | h | h <;> cases h
  | failed g a e₁ e₂ hg ha => cases hr

omit [Platform] in
theorem asked_filter (role : Role) (l : List Done) : asked role (l.filter fun d => recorded d.1) = asked role l := by
  rw [asked, List.countP_filter, asked]
  refine List.countP_congr fun d _ => ?_
  obtain ⟨o, r⟩ := d
  cases o <;> simp [asks, recorded]

/-- What a call's recorded operations satisfy, its whole trace does. -/
theorem TriageSpec.of_filter {c : TriageCall} {l : List Done} {o : TriageOutcome}
    (h : TriageSpec c (l.filter fun d => recorded d.1) o) : TriageSpec c l o := by
  have hf : AttemptFailed c (l.filter fun d => recorded d.1) ↔ AttemptFailed c l := by
    simp [AttemptFailed, List.mem_filter, didAsk, recorded]
  have ha : ∀ role, asked role (l.filter fun d => recorded d.1) = asked role l := fun role => asked_filter role l
  refine ⟨ha .primary ▸ h.primary_le, ha .primary ▸ h.cached_alone, ?_, h.name_iff, h.error_iff, h.cached_not, ?_⟩
  · rw [← hf, ← ha .fallback]
    exact h.fallback_iff
  · intro hfb v ex s hmem
    exact h.no_write hfb v ex s (List.mem_filter.mpr ⟨hmem, rfl⟩)

/-! ## Totality -/

/-- The service's fallback answers the call, whatever else happens. -/
def FallbackReturns (E : Env) (c : TriageCall) : Prop :=
  ∀ a, Replies E c.svc.fallback c.text c.location a → ∃ r, a = .ok r

/-- A call in a pool returns, and by the contract. -/
structure Total {E : Env} {ι : Type} (calls : ι → TriageCall) (P : Pool (machine E) ι TriageOutcome) (i : Nat) (x : ι)
    (p : Code TriageOutcome) : Prop where
  no_raise : ∀ e, p ≠ .raise e
  returns : ∃ P' o, Pool.Steps (fun x => (calls x).code) P P' ∧ P'.threads i = some ⟨x, .ret o⟩
  spec : ∀ o, p = .ret o → TriageSpec (calls x) (P.shared.trace i) o

/-- Triage is total: in every run of calls of one service that starts from an empty triage
    cache, a call whose fallback answers never raises, can always run to its end, and what
    it did and returned keeps to the contract. -/
theorem triage_total {E : Env} {ι : Type} {calls : ι → TriageCall} {svc : TriageService} (hsvc : ∀ x, (calls x).svc = svc)
    (hname : svc.provider.name ≠ FALLBACK_NAME) {w₀ : World} (h₀ : NoTriage w₀)
    {P : Pool (machine E) ι TriageOutcome} (hP : TriageRun E calls w₀ P) {i : Nat} {x : ι} {p : Code TriageOutcome}
    (ht : P.threads i = some ⟨x, p⟩) (hfb : FallbackReturns E (calls x)) : Total calls P i x p := by
  -- the fallback's recorded answer is one it can give
  have never : ∀ {P : Pool (machine E) ι TriageOutcome}, TriageRun E calls w₀ P → ∀ {e : Exc},
      P.threads i ≠ some ⟨x, .raise e⟩ := by
    intro P hP e ht
    have hpath := (triage_ended h₀ hP ht).2 e rfl
    obtain ⟨ls, hls⟩ := triage_run h₀ hP
    generalize hl : (P.shared.trace i).filter (fun d => recorded d.1) = l at hpath
    generalize hr : Except.error e = res at hpath
    cases hpath with
    | hit d r ms => cases hr
    | provider g r s ms hg => cases hr
    | fallback g a e r ms hg ha => cases hr
    | failed g a e₁ e₂ hg ha =>
      have hmem : didAsk .fallback (calls x).svc.fallback (calls x).text (calls x).location (.error e₂) ∈
          P.shared.trace i := (List.mem_filter.mp (hl ▸ List.mem_cons_self)).1
      obtain ⟨r, hr'⟩ := hfb _ (hls.inv.answered _ _ _ _ _ _ (World.mem_trace.mp hmem))
      cases hr'
  refine ⟨fun e he => never hP (he ▸ ht), ?_, fun o ho => ?_⟩
  · have huses := Pool.steps_uses (fun x => triage_uses (calls x).svc _ _ _) hP i _ ht
    obtain ⟨P', hP', -, hend⟩ := Pool.finishes _ (fun i o w hA => aside_enabled hA i w) ht huses
    rcases hend with ⟨o, ho⟩ | ⟨e, he⟩
    · exact ⟨P', o, hP', ho⟩
    · exact absurd he (never (hP.trans hP'))
  · obtain ⟨ls, hls⟩ := triage_run h₀ hP
    refine TriageSpec.of_filter (path_spec ((triage_ended h₀ hP ht).1 o ho) ?_ (hsvc x ▸ hname))
    intro d r hmem
    -- what the call read was cached for a call `y` of this service
    obtain ⟨l, hl, -⟩ := hls.busy i _ ht
    obtain ⟨y, r', -, -, hraw, -⟩ := hls.inv.read i l _ _ hl (hls.inv.own i l hl ▸ hmem) ⟨_, rfl⟩
    rw [(cached_inj (Raw.text.inj hraw)).2, hsvc y]
    exact hname

/-- The provider outside the program times out. -/
def slow : Env := .calm fun _ _ _ => .error .triageTimeout

omit [Platform] in
theorem burstPipe_fallback : @FallbackReturns .ascii slow burstPipe := by
  intro a ha
  have hok : ((@Rules.triage .ascii burstPipe.text burstPipe.location).map some).toBool = true := by decide +kernel
  rw [← show a = _ from ha] at hok
  cases a with
  | ok r => exact ⟨r, rfl⟩
  | error e => cases hok

omit [Platform] in
theorem triage_total_burstPipe :
    ∃ P o, @TriageRun .ascii slow Unit (fun _ => burstPipe) (.initial .empty) P ∧
      P.threads 0 = some ⟨(), .ret o⟩ ∧ @Total .ascii slow Unit (fun _ => burstPipe) P 0 () (.ret o) := by
  let _ : Platform := .ascii
  have h₀ : NoTriage (.initial .empty) := ⟨rfl, fun _ _ => rfl⟩
  have hname : burstPipe.svc.provider.name ≠ FALLBACK_NAME := by decide
  obtain ⟨P₀, hstart, ht⟩ := Pool.starts (M := machine slow) (fun _ : Unit => burstPipe.code) (.initial .empty) 0 ()
  obtain ⟨P, o, hP, ho⟩ := (triage_total (fun _ => rfl) hname h₀ hstart ht burstPipe_fallback).returns
  exact ⟨P, o, hstart.trans hP, ho, triage_total (fun _ => rfl) hname h₀ (hstart.trans hP) ho burstPipe_fallback⟩

end CivicPulse
