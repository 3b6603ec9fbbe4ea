/-
  CivicPulse.Runs.Storable — whether the row of an accepted complaint fits its table.

  - `latency_nonneg`: in any run of triage calls a latency is not negative.
  - `answer_label`: an answer's label is a provider's name, or the fallback's.
  - `storable_iff`: the row `create` builds meets every constraint of the table exactly when
    none of its texts holds U+0000, which the request's validator lets through.
-/

import CivicPulse.Runs.Provenance
import CivicPulse.Services.Complaints

namespace CivicPulse

open Text Lang

/-! ## Time -/

/-- What an operation reads from the performance counter. -/
def reading : (o : Op) → o.Ans → Option ℚ
  | .perfCounter, t => some t
  | _, _ => none

/-- The local state is the first reading; no later one is below it. -/
def timeProtocol : Protocol sig (Option ℚ) where
  can _ _ := True
  step l o r l' := match reading o r with
    | some t => (∀ s, l = some s → s ≤ t) ∧ l' = some (l.getD t)
    | none => l' = l

section

variable {α β : Type} {started : ℚ}

abbrev TimeFollows (Q : Option ℚ → Except Exc α → Prop) (l : Option ℚ) (p : Code α) : Prop := Follows timeProtocol Q l p

/-- Nothing changes the first reading. -/
theorem time_keeps (Q : Except Exc α → Prop) (hQ : ∀ r, Q r) (p : Code α) :
    TimeFollows (fun l r => l = some started ∧ Q r) (some started) p := by
  induction p with
  | ret a => exact ⟨rfl, hQ _⟩
  | raise e => exact ⟨rfl, hQ _⟩
  | op o k ih =>
    refine ⟨trivial, fun r l' hs => ?_⟩
    have hl : l' = some started := by
      simp only [timeProtocol] at hs
      split at hs
      · exact hs.2
      · exact hs
    rw [hl]
    exact ih r

/-- A sequence whose first part is of no interest. -/
theorem time_bind {Q : Option ℚ → Except Exc β → Prop} {p : Code α} {f : α → Code β}
    (hf : ∀ a, TimeFollows Q (some started) (f a)) (he : ∀ e, Q (some started) (.error e)) :
    TimeFollows Q (some started) (p >>= f) := by
  refine Follows.bind (Follows.mono ?_ (time_keeps (fun _ => True) (fun _ => trivial) p))
  intro l r h
  obtain ⟨rfl, -⟩ := h
  cases r with
  | ok a => exact hf a
  | error e => exact he e

theorem time_ms {Q : Option ℚ → Except Exc Int → Prop} (hQ : ∀ n, 0 ≤ n → Q (some started) (.ok n)) :
    TimeFollows Q (some started) (TriageService.ms started) := by
  refine ⟨trivial, fun t l' hs => ?_⟩
  obtain ⟨hle, rfl⟩ := hs
  refine hQ _ (truncate_nonneg (mul_nonneg ?_ (by norm_num)))
  exact sub_nonneg.mpr (hle started rfl)

end

/-- An answer, if there is one, took no negative time. -/
def Timed (r : Except Exc TriageOutcome) : Prop := ∀ o, r = .ok o → 0 ≤ o.latencyMs

section

variable [Platform] {started : ℚ}

omit [Platform] in
theorem timed_error (e : Exc) : Timed (.error e) := by
  intro o h
  cases h

theorem time_record {Q : Option ℚ → Except Exc TriageOutcome → Prop} (id : Str) (o : TriageOutcome)
    (hQ : Q (some started) (.ok o)) (he : ∀ e, Q (some started) (.error e)) :
    TimeFollows Q (some started) (TriageService.record id o) := by
  refine ⟨trivial, fun r l' hs => ?_⟩
  obtain rfl : l' = some started := hs
  exact time_bind (fun _ => hQ) he

theorem time_fromCache {Q : Option ℚ → Except Exc (Option TriageOutcome) → Prop} (id key : Str)
    (hnone : Q (some started) (.ok none)) (hsome : ∀ o, 0 ≤ o.latencyMs → Q (some started) (.ok (some o)))
    (he : ∀ e, Q (some started) (.error e)) : TimeFollows Q (some started) (TriageService.fromCache id key started) := by
  refine time_bind (fun cached => ?_) he
  have hhandler : ∀ e, TimeFollows Q (some started) (do
      if e.isKeyOrValueError then
        JsonCache.delete [key]
        return none
      else throw e) := by
    intro e
    split
    · exact time_bind (fun _ => hnone) he
    · exact he e
  split
  · exact hnone
  · refine Follows.tryCatch (Follows.bind (time_bind (fun result => time_bind (fun triagedBy => ?_) hhandler) hhandler))
    refine Follows.bind (time_ms fun n hn => ?_)
    exact time_bind (fun _ => Follows.bind (time_record id _ (hsome _ hn) hhandler)) hhandler

omit [Platform] in
theorem time_ask (svc : TriageService) (id key text location : Str) :
    TimeFollows (fun l r => l = some started ∧ Timed r) (some started) (svc.ask id key started text location) := by
  refine Follows.tryCatch ?_
  have hfallback : ∀ e, TimeFollows (fun l r => l = some started ∧ Timed r) (some started)
      (svc.askFallback id started text location e) := by
    intro e
    refine time_bind (fun _ => time_bind (fun result => Follows.bind (time_ms fun n hn => ?_)) ?_) ?_
    · exact ⟨rfl, fun o ho => by cases ho; exact hn⟩
    · exact fun e => ⟨rfl, timed_error e⟩
    · exact fun e => ⟨rfl, timed_error e⟩
  refine time_bind (fun result => Follows.bind (time_ms fun n hn => ?_)) hfallback
  refine time_bind (fun dumped => time_bind (fun _ => ?_) hfallback) hfallback
  exact ⟨rfl, fun o ho => by cases ho; exact hn⟩

theorem time_triage (c : TriageCall) : TimeFollows (fun _ => Timed) none c.code := by
  refine ⟨trivial, fun started l' hs => ?_⟩
  obtain ⟨-, rfl⟩ := hs
  refine Follows.bind (time_fromCache _ _ ?_ (fun o ho => ?_) timed_error)
  · refine time_bind (fun _ => Follows.bind (Follows.mono ?_ (time_ask c.svc c.id _ _ _))) timed_error
    intro l r h
    obtain ⟨rfl, hr⟩ := h
    cases r with
    | ok o => exact time_record _ o hr timed_error
    | error e => exact timed_error e
  · intro o' h
    cases h
    exact ho

variable (E : Env) {ι : Type} (calls : ι → TriageCall)

/-- No call's first reading is ahead of the clock. -/
def timeOutline : Outline (machine E) ι TriageOutcome (Option ℚ) where
  toProtocol := timeProtocol
  post _ _ := Timed
  inv w ls := ∀ i s, ls i = some (some s) → s ≤ World.clock w

theorem time_sound : (timeOutline E).Sound fun x => (calls x).code where
  start := by
    intro w ls i x hi hn
    refine ⟨none, fun j s hj => ?_, trivial, time_triage _⟩
    rcases update_some hj with ⟨-, hs⟩ | ⟨-, hj⟩
    · cases hs
    · exact hi j s hj
  exec := by
    intro w ls i l o hi hl _ _
    have hclock : w.clock ≤ w.now E := le_add_of_nonneg_right (E.delay_nonneg _)
    have hold : ∀ j s, ls j = some (some s) → s ≤ w.now E := fun j s hj => (hi j s hj).trans hclock
    have keep : ∀ l', (∀ s, l' = some s → s ≤ w.now E) →
        ∀ j s, Function.update ls i (some l') j = some (some s) → s ≤ w.now E := by
      intro l' hl' j s hj
      rcases update_some hj with ⟨-, hs⟩ | ⟨-, hj⟩
      · exact hl' s hs.symm
      · exact hold j s hj
    by_cases ho : o = .perfCounter
    · subst ho
      refine ⟨some (l.getD (w.now E)), ⟨fun s hs => hold i s (hs ▸ hl), rfl⟩, keep _ fun s hs => ?_, fun _ _ => trivial⟩
      cases l with
      | none => cases hs; exact le_refl _
      | some s' => cases hs; exact hold i _ hl
    · refine ⟨l, ?_, keep _ fun s hs => hold i s (hs ▸ hl), fun _ _ => trivial⟩
      have hno : reading o (World.exec E i o w).1 = none := by
        cases o <;> first | rfl | exact absurd rfl ho
      show match reading o (World.exec E i o w).1 with | some t => _ | none => _
      rw [hno]

variable {E calls} {w₀ : World} {P : Pool (machine E) ι TriageOutcome} {i : Nat} {x : ι} {o : TriageOutcome}

theorem latency_nonneg (hP : TriageRun E calls w₀ P) (ht : P.threads i = some ⟨x, .ret o⟩) : 0 ≤ o.latencyMs := by
  obtain ⟨ls, hls⟩ := Outline.keeps (time_sound E calls) hP (Outline.fresh_holds fun i s h => by cases h)
  obtain ⟨l, -, hpost⟩ := hls.returned ht
  exact hpost o rfl

/-! ## Labels -/

/-- An answer's label is a provider's name, or the fallback's. -/
theorem answer_label (h₀ : NoTriage w₀) (hP : TriageRun E calls w₀ P) (ht : P.threads i = some ⟨x, .ret o⟩) :
    ∃ label, o.triagedBy = text label ∧ (label = FALLBACK_NAME ∨ ∃ y, label = (calls y).svc.provider.name) := by
  have hpath := (triage_ended h₀ hP ht).1 o rfl
  generalize hr : Except.ok o = res at hpath
  generalize (P.shared.trace i).filter (fun d => recorded d.1) = l at hpath
  cases hpath with
  | hit d r ms =>
    cases hr
    obtain ⟨-, y, -, -, -, hby, -⟩ := answer_source h₀ hP ht rfl
    exact ⟨_, hby, .inr ⟨y, rfl⟩⟩
  | provider g r s ms hg =>
    cases hr
    exact ⟨_, rfl, .inr ⟨x, rfl⟩⟩
  | fallback g a e r ms hg ha =>
    cases hr
    exact ⟨_, rfl, .inl rfl⟩
  | failed g a e e' hg ha => cases hr

end

/-! ## The row -/

/-- No text of the row holds U+0000. -/
structure NoNul (data : ComplaintCreate) (summary label : Str) : Prop where
  text : hasNul data.text.str = false
  location : hasNul data.location.str = false
  contact : ∀ c, data.reporterContact = some c → hasNul c.str = false
  summary : hasNul summary = false
  label : hasNul label = false

/-- What the validators promise is all the table asks for, but for U+0000. -/
theorem constraints_iff (data : ComplaintCreate) (r : TriageResult) {label : Str} {latency : Int} (hlabel : label.length ≤ 32)
    (hlatency : 0 ≤ latency) (id : Uuid) (createdAt updatedAt : Int) :
    (Complaint.Constraints ⟨id, data.text.str, data.location.str, data.reporterContact.map (·.str), r.category, r.priority,
      .open_, some r.summary, label, latency, createdAt, updatedAt⟩) ↔ NoNul data r.summary label := by
  constructor
  · intro h
    refine ⟨h.textNul, h.locationNul, fun c hc => ?_, h.summaryNul _ rfl, h.triagedByNul⟩
    exact h.contactNul _ (by rw [hc]; rfl)
  · intro h
    refine ⟨⟨data.text.le_length, data.text.length_le⟩, ⟨data.location.le_length, data.location.length_le⟩, ?_, ?_, hlabel,
      hlatency, h.text, h.location, ?_, ?_, h.label⟩
    · intro s hs
      obtain ⟨c, -, rfl⟩ := Option.map_eq_some_iff.mp hs
      exact c.length_le
    · intro s hs
      cases hs
      exact r.length_le
    · intro s hs
      obtain ⟨c, hc, rfl⟩ := Option.map_eq_some_iff.mp hs
      exact h.contact c hc
    · intro s hs
      cases hs
      exact h.summary

section

/-- The triage call `create` makes for an accepted body. -/
def submission (svc : TriageService) (id : Uuid) (data : ComplaintCreate) : TriageCall :=
  ⟨svc, uuidText id, data.text.str, data.location.str⟩

variable [Platform] {E : Env} {ι : Type} {svcs : ι → TriageService} {ids : ι → Uuid} {bodies : ι → ComplaintCreate}

/-- For every accepted body and every outcome triage returns for it, the row `create` builds
    can be stored exactly when none of its texts holds U+0000. -/
theorem storable_iff (hlabel : ∀ x, (svcs x).provider.name.length ≤ 28) {w₀ : World} (h₀ : NoTriage w₀)
    {P : Pool (machine E) ι TriageOutcome} (hP : TriageRun E (fun x => submission (svcs x) (ids x) (bodies x)) w₀ P)
    {i : Nat} {x : ι} {o : TriageOutcome} (ht : P.threads i = some ⟨x, .ret o⟩) (createdAt updatedAt : Int) :
    ∀ r, o.result = some r → ∃ label row, o.triagedBy = text label ∧
      (ComplaintService.draft (ids x) (bodies x) r o).row createdAt updatedAt = some row ∧
      (row.Constraints ↔ NoNul (bodies x) r.summary label) := by
  intro r _
  obtain ⟨label, hby, hcases⟩ := answer_label h₀ hP ht
  have hlen : label.length ≤ 32 := by
    rcases hcases with rfl | ⟨y, rfl⟩
    · decide
    · exact (hlabel y).trans (by decide)
  have hrow : (ComplaintService.draft (ids x) (bodies x) r o).row createdAt updatedAt =
      some ⟨ids x, (bodies x).text.str, (bodies x).location.str, (bodies x).reporterContact.map (·.str), r.category,
        r.priority, .open_, some r.summary, label, o.latencyMs, createdAt, updatedAt⟩ := by
    rw [Draft.row, show (ComplaintService.draft (ids x) (bodies x) r o).triagedBy = .str (codes label) from hby, strOf_codes]
    rfl
  exact ⟨label, _, hby, hrow, constraints_iff _ r hlen (latency_nonneg hP ht) _ _ _⟩

end

/-! ## A body that is stored, and one that is not -/

section

/-- One submission to the rules. -/
def ruled (data : ComplaintCreate) : Pool (@machine .ascii (.calm fun _ _ _ => .error .triageTimeout)) Unit TriageOutcome :=
  Pool.schedule (fun _ => @TriageCall.code .ascii (submission ⟨.rules, .rules, 86400⟩ 0 data))
    (.start 0 () :: List.replicate 12 (.exec 0)) (.fresh (.initial .empty))

/-- The row `create` builds for it. -/
def storedRow (data : ComplaintCreate) : Option Complaint :=
  ((ruled data).result 0).bind fun o => o.result.bind fun r => (ComplaintService.draft 0 data r o).row 0 0

def burstBody : ComplaintCreate where
  text := ⟨"water pipe burst near school".toList, by decide, by decide, by decide⟩
  location := ⟨"street 12".toList, by decide, by decide, by decide⟩
  reporterContact := none

theorem storable_iff_burst : ∃ o r label row, (ruled burstBody).result 0 = some o ∧ o.result = some r ∧
    o.triagedBy = text label ∧ (ComplaintService.draft 0 burstBody r o).row 0 0 = some row ∧
    (row.Constraints ↔ NoNul burstBody r.summary label) := by
  have hsome : (((ruled burstBody).result 0).bind (·.result)).isSome = true := by decide +kernel
  have h₀ : NoTriage (.initial .empty) := ⟨rfl, fun _ _ => rfl⟩
  have hrun : @TriageRun .ascii _ _ (fun _ : Unit => submission ⟨.rules, .rules, 86400⟩ 0 burstBody) (.initial .empty)
      (ruled burstBody) := Pool.schedule_steps _ _ _
  obtain ⟨r, hr⟩ := Option.isSome_iff_exists.mp hsome
  obtain ⟨o, ho, hres⟩ := Option.bind_eq_some_iff.mp hr
  obtain ⟨c, hc⟩ := Pool.result_some ho
  obtain ⟨label, row, h⟩ := @storable_iff .ascii _ _ (fun _ => ⟨.rules, .rules, 86400⟩) (fun _ => 0) (fun _ => burstBody)
    (fun _ => by decide) _ h₀ _ hrun 0 c o hc 0 0 r hres
  exact ⟨o, r, label, row, ho, hres, h⟩

/-- A JSON body with this text. -/
def body (t : String) : Json :=
  .obj [(codes "text".toList, .str (codes t.toList)), (codes "location".toList, .str (codes "street 12".toList))]

/-- The body is accepted, and its row breaks a constraint. -/
theorem not_storable : ((ComplaintCreate.modelValidate (body "water pipe\x00 burst")).toOption.bind storedRow).map
    (fun row => decide row.Constraints) = some false := by
  decide +kernel

end

end CivicPulse
