/-
  CivicPulse.Runs.Contact — contacts stay out of triage
  (`docs/adr/0004-pii-and-data-governance.md`, decision 1).

  Two runs whose requests differ in the `reporter_contact` of the submitted bodies only:
  the same requests, in the same interleaving, in the same environment.
  - `serve_image`: a request does without its contact what is left of what it does.
  - `contacts_stay_out`: the providers are asked the same, the hosted models are sent the
    same messages, Redis, the warnings and the rows without their contacts are the same,
    and so is what is replied.
-/

import CivicPulse.Runs.RequestRuns
import CivicPulse.Services.Footprint
import CivicPulse.Store.Anonymous
import CivicPulse.Triage.Llm

namespace CivicPulse

open Text Lang Prompt

/-! ## Requests -/

def ComplaintCreate.anonymous (data : ComplaintCreate) : ComplaintCreate := { data with reporterContact := none }

def Call.anonymous : Call → Call
  | .create data => .create data.anonymous
  | c => c

def Reply.anonymous : Reply → Reply
  | .complaint c => .complaint c.anonymous
  | .stats s hit => .stats s hit
  | .page items total => .page (items.map Complaint.anonymous) total

namespace Contact

/-- A request without its contact. -/
def forget (c : App × Call) : App × Call := (c.1, c.2.anonymous)

variable {α β : Type}

theorem fixes {o : Op} (h : o.anonymous = o) (hr : ∀ r, h ▸ o.forget r = r) : anonymous.Fixes o := ⟨h, hr⟩

theorem ofTriage_fixes {key : Str} {o : Op} (h : OfTriage key o) : anonymous.Fixes o := by
  cases o with
  | get k => exact fixes rfl fun _ => rfl
  | set k v ex => exact fixes rfl fun _ => rfl
  | delete ks => exact fixes rfl fun _ => rfl
  | incr k => exact fixes rfl fun _ => rfl
  | pushTrim k v n => exact fixes rfl fun _ => rfl
  | triage role p text location => exact fixes rfl fun _ => rfl
  | perfCounter => exact fixes rfl fun _ => rfl
  | utcnow => exact fixes rfl fun _ => rfl
  | warn msg extra => exact fixes rfl fun _ => rfl
  | _ => cases h

theorem select_fixes {q : Query} (h : ∀ r, q.forget r = r) : anonymous.Fixes (.select q) := by
  refine fixes rfl fun r => ?_
  cases r with
  | error e => rfl
  | ok r => exact congrArg Except.ok (h r)

theorem ofExcept_image (f : α → β) (r : Except Exc α) : Image anonymous f (ofExcept r) (ofExcept (r.map f)) := by
  cases r <;> rfl

theorem invalidate_image : Image anonymous id StatsService.invalidate StatsService.invalidate :=
  image_of_uses (JsonCache.uses_delete (fixes rfl fun _ => rfl) fun _ _ => fixes rfl fun _ => rfl)

theorem commit_image : Image anonymous id Repository.commit Repository.commit :=
  image_of_uses ⟨fixes rfl fun _ => rfl, fun r => uses_ofExcept r⟩

theorem changeStatus_image (id : Uuid) (target : Status) :
    Image anonymous Complaint.anonymous (ComplaintService.changeStatus id target) (ComplaintService.changeStatus id target) := by
  refine Image.bind (f := Option.map Complaint.anonymous) ⟨_, rfl, ofExcept_image _⟩ fun found => ?_
  cases found with
  | none => rfl
  | some c =>
    show Image anonymous _ (if canTransition c.status target then _ else _) (if canTransition c.status target then _ else _)
    split
    · refine Image.bind (f := Complaint.anonymous) ⟨_, rfl, fun (r : Except Exc Int) => ?_⟩ fun row => ?_
      · cases r <;> rfl
      · exact Image.bind commit_image fun _ => Image.bind invalidate_image fun _ => rfl
    · exact Image.bind (f := fun u : Unit => u) ⟨_, rfl, fun _ => rfl⟩ fun _ => rfl

theorem get_image (id : Uuid) : Image anonymous Complaint.anonymous (ComplaintService.get id) (ComplaintService.get id) := by
  refine Image.bind (f := Option.map Complaint.anonymous) ⟨_, rfl, ofExcept_image _⟩ fun found => ?_
  cases found <;> rfl

theorem list_image (f : ComplaintFilters) (page pageSize : Int) :
    Image anonymous (Prod.map (List.map Complaint.anonymous) id) (ComplaintService.list f page pageSize)
      (ComplaintService.list f page pageSize) := by
  refine ⟨_, rfl, fun (r : Except Exc Nat) => ?_⟩
  cases r with
  | error e => rfl
  | ok total =>
    refine ⟨_, rfl, fun (r : Except Exc (List Complaint)) => ?_⟩
    cases r <;> rfl

theorem repository_image {f : α → β} {p : Code α} {q : Code β} (h : Image anonymous f p q) :
    Image anonymous f (repository p) (repository q) := by
  have hclose : Image anonymous id (.op .close fun _ => .ret ()) (.op .close fun _ => .ret () : Code Unit) := ⟨_, rfl, fun _ => rfl⟩
  have hrollback : Image anonymous id Repository.rollback Repository.rollback := ⟨_, rfl, fun _ => rfl⟩
  refine Image.bind (Image.tryCatch (Image.tryCatch h fun e => ?_) fun e => ?_) fun a => ?_
  · exact Image.bind hrollback fun _ => rfl
  · exact Image.bind hclose fun _ => rfl
  · exact Image.bind hclose fun _ => rfl

variable [Platform]

/-- The body's text and location decide everything but the contact. -/
theorem create_image (svc : TriageService) (data : ComplaintCreate) :
    Image anonymous Complaint.anonymous (ComplaintService.create svc data) (ComplaintService.create svc data.anonymous) := by
  refine ⟨_, rfl, fun (uuid : Uuid) => Image.bind (image_of_uses ?_) fun outcome => ?_⟩
  · exact Prog.uses_mono (fun _ => ofTriage_fixes) (triage_ofTriage svc _ _ _)
  · rcases hr : outcome.result with _ | result
    · simp only [id, hr]
      rfl
    · simp only [id, hr]
      refine Image.bind ⟨_, rfl, ofExcept_image _⟩ fun row => ?_
      exact Image.bind commit_image fun _ => Image.bind invalidate_image fun _ => rfl

theorem stats_image (ttl : Int) : Image anonymous id (StatsService.get ttl) (StatsService.get ttl) :=
  image_of_uses (StatsService.uses_get (Repository.uses_aggregates (select_fixes fun _ => rfl) fun _ => select_fixes fun _ => rfl)
    (fixes rfl fun _ => rfl) (fixes rfl fun _ => rfl) (fun _ _ => fixes rfl fun _ => rfl) (fun _ _ => fixes rfl fun _ => rfl) ttl)

theorem serve_image (c : App × Call) : Image anonymous Reply.anonymous (serve c) (serve (forget c)) := by
  obtain ⟨app, call⟩ := c
  refine repository_image ?_
  cases call with
  | create data => exact Image.bind (create_image app.triage data) fun _ => rfl
  | changeStatus id target => exact Image.bind (changeStatus_image id target) fun _ => rfl
  | stats => exact Image.bind (stats_image app.statsTtl) fun _ => rfl
  | get id => exact Image.bind (get_image id) fun _ => rfl
  | list f page pageSize => exact Image.bind (list_image f page pageSize) fun _ => rfl
  | invalid errors => exact rfl

end Contact

/-! ## What a run shows -/

/-- One call of a provider, the `n`-th operation. -/
structure ProviderCall where
  n : Nat
  tid : Nat
  role : Role
  provider : Provider
  text : Str
  location : Str
  answer : Except Exc (Option TriageResult)

def Event.providerCall (ev : Event) (n : Nat) : Option ProviderCall :=
  match ev with
  | ⟨tid, .triage role p text location, r⟩ => some ⟨n, tid, role, p, text, location, r⟩
  | _ => none

def Event.warning : Event → Option (Str × List (Str × Str))
  | ⟨_, .warn msg extra, _⟩ => some (msg, extra)
  | _ => none

namespace World

/-- Oldest first. -/
def providerCalls (w : World) : List ProviderCall :=
  (w.log.reverse.zipIdx (w.ticks - w.log.length)).filterMap fun x => x.1.providerCall x.2

def warnings (w : World) : List (Str × List (Str × Str)) := w.log.reverse.filterMap Event.warning

end World

/-- The providers behind HTTP: how often each tries, and what the hosted model makes of the
    requests of one operation. -/
structure Hosting where
  maxAttempts : Str → Option Nat
  upstream : Nat → Str → Upstream

variable [Platform]

/-- The message lists a call sends. -/
def Hosting.sent (H : Hosting) (c : ProviderCall) : List (List Message) :=
  match c.provider with
  | .rules => []
  | .external name => match H.maxAttempts name with
    | some n => (conversed (H.upstream c.n name) n c.text c.location).2
    | none => []

/-- The providers behind HTTP answer what their attempts come to. -/
def Env.hosting (E : Env) (H : Hosting) : Env :=
  { E with reply := fun k name text location => match H.maxAttempts name with
      | some n => (conversed (H.upstream k name) n text location).1.map some
      | none => E.reply k name text location }

namespace Contact

/-- Two runs that differ in the contacts only. -/
structure Alike (H : Hosting) (w w' : World) : Prop where
  calls : w.providerCalls = w'.providerCalls
  messages : w.providerCalls.flatMap H.sent = w'.providerCalls.flatMap H.sent
  redis : w.redis = w'.redis
  warnings : w.warnings = w'.warnings
  rows : w.db.table.rows.map Complaint.anonymous = w'.db.table.rows.map Complaint.anonymous

omit [Platform] in
theorem providerCall_anonymous (ev : Event) (n : Nat) : ev.anonymous.providerCall n = ev.providerCall n := by
  obtain ⟨tid, o, r⟩ := ev
  cases o <;> rfl

omit [Platform] in
theorem warning_anonymous (ev : Event) : ev.anonymous.warning = ev.warning := by
  obtain ⟨tid, o, r⟩ := ev
  cases o <;> rfl

omit [Platform] in
theorem providerCalls_anonymous (w : World) : w.anonymous.providerCalls = w.providerCalls := by
  show ((w.log.map Event.anonymous).reverse.zipIdx (w.ticks - (w.log.map Event.anonymous).length)).filterMap _ = _
  rw [← List.map_reverse, List.zipIdx_map, List.filterMap_map, List.length_map]
  exact List.filterMap_congr fun x _ => providerCall_anonymous x.1 x.2

omit [Platform] in
theorem warnings_anonymous (w : World) : w.anonymous.warnings = w.warnings := by
  show (w.log.map Event.anonymous).reverse.filterMap _ = _
  rw [← List.map_reverse, List.filterMap_map]
  exact List.filterMap_congr fun ev _ => warning_anonymous ev

theorem alike_of_anonymous {w w' : World} (h : w.anonymous = w'.anonymous) (H : Hosting) : Alike H w w' := by
  have hcalls : w.providerCalls = w'.providerCalls := by rw [← providerCalls_anonymous, h, providerCalls_anonymous]
  have hredis : w.anonymous.redis = w'.anonymous.redis := by rw [h]
  have hrows : w.anonymous.db.table.rows = w'.anonymous.db.table.rows := by rw [h]
  have hwarnings : w.warnings = w'.warnings := by rw [← warnings_anonymous, h, warnings_anonymous]
  exact ⟨hcalls, by rw [hcalls], hredis, hwarnings, hrows⟩

/-- A run of requests. -/
abbrev run (E : Env) (w₀ : World) (as : List (Pool.Act (App × Call))) : Pool (machine E) (App × Call) Reply :=
  Pool.schedule serve as (.fresh w₀)

/-- The contacts of the bodies change nothing but the contacts of the rows and of what is
    replied. -/
theorem contacts_stay_out (E : Env) (H : Hosting) {w₀ w₀' : World} (h₀ : w₀.anonymous = w₀'.anonymous)
    {as as' : List (Pool.Act (App × Call))} (has : as.map (Pool.Act.map forget) = as'.map (Pool.Act.map forget))
    (hok : (run (E.hosting H) w₀ as).shared.AcceptsContacts) (hok' : (run (E.hosting H) w₀' as').shared.AcceptsContacts) :
    Alike H (run (E.hosting H) w₀ as).shared (run (E.hosting H) w₀' as').shared ∧
      ∀ i, ((run (E.hosting H) w₀ as).result i).map Reply.anonymous = ((run (E.hosting H) w₀' as').result i).map Reply.anonymous := by
  obtain ⟨hshared, hresult⟩ := Pool.same_image (commutes_anonymous (E.hosting H)) serve_image h₀ has hok hok'
  exact ⟨alike_of_anonymous hshared H, hresult⟩

/-! ## A submission -/

omit [Platform] in
section

/-- A hosted model that is never in time, and tried twice. -/
def late : Hosting := ⟨fun _ => some 2, fun _ _ _ _ => .error .triageTimeout⟩

def lateEnv : Env := @Env.hosting .ascii (.calm fun _ _ _ => .error .triageTimeout) late

def leakOf (contact : Option (BoundedStr 1 CONTACT_MAX)) : ComplaintCreate := { Request.leak with reporterContact := contact }

def submission (contact : Option (BoundedStr 1 CONTACT_MAX)) : List (Pool.Act (App × Call)) :=
  .start 0 (⟨⟨.external "llm:groq".toList, .rules, 86400⟩, 30⟩, .create (leakOf contact)) :: List.replicate 24 (.exec 0)

def phone : BoundedStr 1 CONTACT_MAX := ⟨"0300".toList, by decide, by decide, by decide⟩

def contactsIn (w : World) : List (Option Str) := w.db.table.rows.map (·.reporterContact)

theorem contacts_stay_out_leak :
    contactsIn (@run .ascii lateEnv (.initial .empty) (submission none)).shared = [none] ∧
      contactsIn (@run .ascii lateEnv (.initial .empty) (submission (some phone))).shared = [some "0300".toList] ∧
      ((@run .ascii lateEnv (.initial .empty) (submission none)).shared.providerCalls.flatMap (@Hosting.sent .ascii late)).length = 2 ∧
        @Alike .ascii late (@run .ascii lateEnv (.initial .empty) (submission none)).shared
          (@run .ascii lateEnv (.initial .empty) (submission (some phone))).shared := by
  have has : (submission none).map (Pool.Act.map forget) = (submission (some phone)).map (Pool.Act.map forget) := rfl
  -- one decision for all that the two runs come to
  have hruns : (contactsIn (@run .ascii lateEnv (.initial .empty) (submission none)).shared = [none] ∧
      ((@run .ascii lateEnv (.initial .empty) (submission none)).shared.providerCalls.flatMap (@Hosting.sent .ascii late)).length = 2 ∧
      (@run .ascii lateEnv (.initial .empty) (submission none)).shared.AcceptsContacts) ∧
      contactsIn (@run .ascii lateEnv (.initial .empty) (submission (some phone))).shared = [some "0300".toList] ∧
      (@run .ascii lateEnv (.initial .empty) (submission (some phone))).shared.AcceptsContacts := by
    decide +kernel
  obtain ⟨⟨hnone, hcalls, hok⟩, hphone, hok'⟩ := hruns
  exact ⟨hnone, hphone, hcalls, (@contacts_stay_out .ascii _ late _ _ rfl _ _ has hok hok').1⟩

end

end Contact

end CivicPulse
