/-
  CivicPulse.Http.Deployed — the API as it is served: the routes, what the framework sends for
  an answer, the middleware around both, and the framework's own layer around that.

  What the framework and the logging library decide is a parameter (`Framework`): a response's
  headers, and the record of a warning. An answer without a response is an exception that goes
  through the middleware, to the outermost layer.
  - `answering`: a served request does what the API's code does, and then sends its answer.
  - `api_deployed`: every run of the deployed API is a run of `api`, and what a client is sent
    is the answer of that run, or a plain 500 where that has none.
-/

import CivicPulse.Http.Responses
import CivicPulse.Http.ServerErrors

namespace CivicPulse

open Text Lang

namespace Asgi

/-! ## Serving an answer -/

/-- What the web framework and the logging library decide. -/
structure Framework where
  headers : Response → List (Str × Str)
  record : Str → List (Str × Str) → LogRecord

section

variable (F : Framework)

def sendThen (m : Message) (p : Application sig) : Application sig := .op (.send m) (unlessGone p)

def Framework.start (r : Response) : Message := .start r.status (some (F.headers r))

def Framework.respond : Answer → Application sig
  | .response r => sendThen (F.start r) (sendThen bodyMessage (.ret ()))
  | .failed e => .raise e

/-- The record of a warning, if the operation is one. -/
def Framework.warned : Op → Option LogRecord
  | .warn msg extra => some (F.record msg extra)
  | _ => none

def logged (r : Option LogRecord) (p : Application sig) : Application sig :=
  match r with
  | none => p
  | some r => .op (.log r) fun _ => p

/-- The API's code as an application. -/
def Framework.running : Code Answer → Application sig
  | .ret a => F.respond a
  | .raise e => .raise e
  | .op o k => .op (.inner o) fun r => logged (F.warned o) (Framework.running (k r))

variable [Platform] (g : Gate)

/-- The API's requests with their scopes. -/
def Framework.api : Server sig (Scope × App × Route) := ⟨Prod.fst, fun c => F.running (CivicPulse.api g c.2)⟩

/-- The API as `create_app` builds it. -/
def Framework.deployed (c : Scope × App × Route) : Wrapped sig := outermost c.1 false ((F.api g).behind c)

/-! ## A served request -/

omit [Platform] in
/-- The code ends in an answer, whatever it is told. -/
def Replies (p : Code Answer) : Prop := Lets (S := sig) (fun _ _ => True) (fun r => ∃ a, r = .ok a) p

theorem api_replies (c : App × Route) : Replies (CivicPulse.api g c) := by
  refine Lets.tryCatch (Lets.always (fun r => ?_) _)
  cases r with
  | ok a => exact ⟨a, rfl⟩
  | error e => exact ⟨handler e, rfl⟩

/-- What is left of a served request, once it has sent these messages. -/
inductive Answering : List Message → Application sig → Code Answer → Prop
  | running {p q} : Replies p → q = F.running p → Answering [] q p
  | logging {p q r} : Replies p → q = .op (.log r) (fun _ => F.running p) → Answering [] q p
  | started {r : Response} {q} : q = sendThen bodyMessage (.ret ()) ∨ (∃ e, q = .raise e) → Answering [F.start r] q (.ret (.response r))
  | finished {r : Response} {q} : q = .ret () ∨ (∃ e, q = .raise e) → Answering [F.start r, bodyMessage] q (.ret (.response r))

section

variable {E : Env} {H : Host sig} {i : Nat}

omit [Platform] in
theorem messages_did {σ : Type} (m : Message) (w : Process σ) : (w.did i (.sent m)).messages i = w.messages i ++ [m] := by
  unfold Process.messages
  rw [effectsOf_did, List.filterMap_append]
  rfl

omit [Platform] in
theorem messages_wrote {σ : Type} (r : LogRecord) (created : Int) (id : Str) (w : Process σ) :
    (w.did i (.wrote r created id)).messages i = w.messages i := by
  unfold Process.messages
  rw [effectsOf_did, List.filterMap_append]
  exact List.append_nil _

theorem messages_execApp {j : Nat} (o : AppOp sig) (w : Process World) (h : j ≠ i) :
    (execApp (machine E) H i w o).2.messages j = w.messages j :=
  congrArg (fun v => v.1.filterMap Effect.message) (seen_execApp (M := machine E) (H := H) o w h)

omit [Platform] in
theorem answering_logged {p : Code Answer} (hp : Replies p) (r : Option LogRecord) : Answering F [] (logged r (F.running p)) p := by
  cases r with
  | none => exact .running hp rfl
  | some r => exact .logging hp rfl

/-- The application does what the API's code does, and then answers. -/
def answering (E : Env) (H : Host sig) : Simulation (bare (machine E) H) (machine E) (F.api g).app (fun c => CivicPulse.api g c.2)
    (List Message) Unit where
  shared w s := w.inner = s
  seen' i w := w.messages i
  seen _ _ := ()
  start' := []
  start := ()
  matched _ ms _ q p := Answering F ms q p
  starts c := .running (api_replies g c.2) rfl
  frame' o s h := messages_execApp o s h
  frame _ _ _ := rfl
  exec := by
    intro w s i c o' k' p hw h hen
    subst hw
    have hsent : ∀ m : Message, ((bare (machine E) H).exec i (.send m) w).2.messages i = w.messages i ++ [m] := fun m => messages_did m w
    have hwrote : ∀ r : LogRecord, ((bare (machine E) H).exec i (.log r) w).2.messages i = w.messages i := fun r => messages_wrote r _ _ w
    generalize hms : w.messages i = ms at h
    cases h with
    | running hp hq =>
      cases p with
      | ret a =>
        cases a with
        | failed e => cases hq
        | response r =>
          cases hq
          refine .inl ⟨rfl, ?_⟩
          rw [hsent, hms]
          exact .started (unlessGone_cases _ _)
      | raise e => cases hq
      | op o k =>
        cases hq
        refine .inr ⟨o, k, rfl, hen, rfl, ?_⟩
        show Answering F (w.messages i) _ _
        rw [hms]
        exact answering_logged F (hp _ trivial) _
    | logging hp hq =>
      cases hq
      refine .inl ⟨rfl, ?_⟩
      rw [hwrote, hms]
      exact .running hp rfl
    | started hq =>
      rcases hq with hq | ⟨e, hq⟩
      · cases hq
        refine .inl ⟨rfl, ?_⟩
        rw [hsent, hms]
        exact .finished (unlessGone_cases _ _)
      · cases hq
    | finished hq =>
      rcases hq with hq | ⟨e, hq⟩ <;> cases hq

end

/-! ## Runs -/

/-- What the API's thread tells its client: nothing yet, or the beginning of its response. -/
def Tells (p : Code Answer) (own : List Message) : Prop :=
  own = [] ∨ ∃ r, p = .ret (.response r) ∧ own <+: [F.start r, bodyMessage]

omit [Platform] in
theorem Answering.tells {ms : List Message} {q : Application sig} {p : Code Answer} (h : Answering F ms q p) : Tells F p ms := by
  cases h with
  | running => exact .inl rfl
  | logging => exact .inl rfl
  | started => exact .inr ⟨_, rfl, [bodyMessage], rfl⟩
  | finished => exact .inr ⟨_, rfl, [], rfl⟩

omit [Platform] in
/-- A request that has returned has told everything. -/
theorem Answering.returned {ms : List Message} {p : Code Answer} (h : Answering F ms (.ret ()) p) :
    ∃ r, p = .ret (.response r) ∧ ms = [F.start r, bodyMessage] := by
  generalize hq : (.ret () : Application sig) = q at h
  cases h with
  | running _ h =>
    cases p with
    | ret a => cases a <;> cases hq.trans h
    | raise e => cases hq.trans h
    | op o k => cases hq.trans h
  | logging _ h => cases hq.trans h
  | started h =>
    rcases h with h | ⟨e, h⟩ <;> cases hq.trans h
  | finished => exact ⟨_, rfl, rfl⟩

omit [Platform] in
/-- One that has failed before it told anything had no response. -/
theorem Answering.failed {ms : List Message} {p : Code Answer} {e : Exc} (h : Answering F ms (.raise e) p) (hms : ms.any Message.starts = false) :
    ms = [] ∧ ∃ x, p = .ret (.failed x) := by
  generalize hq : (.raise e : Application sig) = q at h
  cases h with
  | running hp h =>
    refine ⟨rfl, ?_⟩
    cases p with
    | ret a =>
      cases a with
      | response r => cases hq.trans h
      | failed x => exact ⟨x, rfl⟩
    | raise x =>
      obtain ⟨a, ha⟩ := hp
      cases ha
    | op o k => cases hq.trans h
  | logging _ h => cases hq.trans h
  | started => cases hms
  | finished => cases hms

/-- What a client has been sent for a request of the API, and how the request ends: `p` is what is
    left of the API's code, and `q` of the whole. -/
structure Delivered (scope : Scope) (p : Code Answer) (q : Wrapped sig) (all : List Message) : Prop where
  /-- The response that the route has returned, under the request's id; or the plain 500, which
      has none, if the route has ended in an exception. -/
  sent : ∃ own through tail, Tells F p own ∧ Relayed scope own through ∧ all = through ++ tail ∧
    (tail = [] ∨ own = [] ∧ (∃ x, p = .ret (.failed x)) ∧ tail <+: [serverError, bodyMessage])
  returned : q = .ret () → ∃ r, p = .ret (.response r) ∧ Relayed scope [F.start r, bodyMessage] all
  raised : scope.http = true → (∃ e, q = .raise e) → all ≠ []

variable {E : Env} {H : Host sig} {w₀ : World}

/-- Where a request of the deployed API is. -/
def Deployed (scope : Scope) (v : List Effect × Str) (q : Wrapped sig) (p : Code Answer) : Prop :=
  ∃ bs a, Guarded scope v bs q a ∧ Answering F (bs.filterMap Effect.message) a p

omit [Platform] in
theorem Deployed.delivered {scope : Scope} {es : List Effect} {context : Str} {q : Wrapped sig} {p : Code Answer}
    (h : Deployed F scope (es, context) q p) : Delivered F scope p q (es.filterMap Effect.message) := by
  obtain ⟨bs, a, hguarded, hans⟩ := h
  have htold := hguarded.told
  refine ⟨?_, fun hret => ?_, htold.raised⟩
  · obtain ⟨through, tail, hall, hrelayed, htail⟩ := htold.split
    refine ⟨_, through, tail, hans.tells, hrelayed, hall, htail.imp_right fun ⟨⟨e, ha⟩, hstarts, hprefix⟩ => ?_⟩
    subst ha
    obtain ⟨hown, hfailed⟩ := hans.failed F hstarts
    exact ⟨hown, hfailed, hprefix⟩
  · obtain ⟨ha, hrelayed⟩ := htold.returned hret
    subst ha
    obtain ⟨r, hp, hown⟩ := hans.returned
    rw [hown] at hrelayed
    exact ⟨r, hp, hrelayed⟩

omit [Platform] in
/-- A process in which thread `i` alone has done something. -/
theorem effectsOf_alone {σ : Type} (w : Process σ) (i : Nat) (bs : List Effect) : ({ w with effects := bs.map (i, ·) } : Process σ).effectsOf i = bs := by
  simp [Process.effectsOf, tally, List.filter_map, Function.comp_def]

/-- The deployed API does what the routes' code does. -/
def deploying (E : Env) (H : Host sig) : Simulation (wrapped (machine E) H) (machine E) (F.deployed g) (fun c => CivicPulse.api g c.2)
    (List Effect × Str) Unit where
  shared w s := w.inner = s
  seen' := seen
  seen _ _ := ()
  start' := ([], unnamed)
  start := ()
  matched c v _ := Deployed F c.1 v
  starts c := ⟨[], _, .inside (place_requestContext c.1 _) rfl, (answering F g E H).starts c⟩
  frame' o s h := seen_execAsgi o s h
  frame _ _ _ := rfl
  exec := by
    rintro w s i c o' k' p hw ⟨bs, a, hguarded, hans⟩ hen
    subst hw
    -- the application by itself, in a process that looks the same to it
    let b : Process World := { w with effects := bs.map (i, ·) }
    have hbeside : Beside w b := ⟨rfl, rfl⟩
    have hb : b.effectsOf i = bs := effectsOf_alone w i bs
    have hguarded : Guarded c.1 (seen i w) (seen i b).1 (.op o' k') a := by
      show Guarded c.1 (seen i w) (b.effectsOf i) _ _
      rwa [hb]
    rcases guarded_exec hbeside hguarded hen with ⟨hinner, hguarded'⟩ | ⟨o, k, rfl, hen', hinner, hguarded'⟩
    · refine .inl ⟨hinner, _, a, hguarded', ?_⟩
      show Answering F ((b.effectsOf i).filterMap Effect.message) a p
      rwa [hb]
    · have hmatched : (answering F g E H).matched c ((answering F g E H).seen' i b) () (.op o k) p := by
        show Answering F ((b.effectsOf i).filterMap Effect.message) _ p
        rwa [hb]
      have hb' : (answering F g E H).shared b w.inner := rfl
      rcases (answering F g E H).exec hb' hmatched hen' with ⟨hshared, hans'⟩ | ⟨o₁, k₁, rfl, hen₁, hshared, hans'⟩
      · exact .inl ⟨hinner.trans hshared, _, _, hguarded', hans'⟩
      · exact .inr ⟨o₁, k₁, rfl, hen₁, hinner.trans hshared, _, _, hguarded', hans'⟩

/-- Every run of the deployed API is, thread by thread, a run of the routes' code from the same
    world to the same world, and each client is sent what becomes of its own request there. The
    entries of the triage cache are to name their providers by texts, as the service writes them. -/
theorem api_deployed (hcache : Counters.Cached w₀.redis) (hlog : w₀.log = []) {P : Pool (wrapped (machine E) H) (Scope × App × Route) Unit}
    (hP : Pool.Steps (F.deployed g) (.fresh (Process.initial w₀)) P) :
    ∃ A : Pool (machine E) (Scope × App × Route) Answer, Pool.Steps (fun c => CivicPulse.api g c.2) (.fresh w₀) A ∧
      P.shared.inner = A.shared ∧ (∀ ev ∈ A.shared.log, Labels.Named ev.op) ∧
      ∀ i c q, P.threads i = some ⟨c, q⟩ → ∃ p, A.threads i = some ⟨c, p⟩ ∧ Delivered F c.1 p q (P.shared.messages i) := by
  have hfresh : (deploying F g E H).Related (.fresh (Process.initial w₀)) (.fresh w₀) :=
    Simulation.fresh_related rfl (fun _ => rfl) fun _ => rfl
  obtain ⟨A, hA, hrel⟩ := Simulation.steps hfresh hP
  refine ⟨A, hA, hrel.shared, Request.labelled_run hcache hlog Prod.snd hA, fun i c q ht => ?_⟩
  obtain ⟨p, hp, hmatched⟩ := hrel.busy i _ ht
  have hmatched : Deployed F c.1 (P.shared.effectsOf i, P.shared.ids i) q p := hmatched
  exact ⟨p, hp, hmatched.delivered⟩

end

/-! ## A submission, and an outage of the database -/

def plainFramework : Framework where
  headers r := ("content-type".toList, "application/json".toList) :: r.headers
  record msg _ := ⟨"WARNING".toList, "app".toList, msg, Dict.empty, none⟩

def posted : Scope := ⟨true, [("x-request-id".toList, "a-1".toList)], "POST".toList, "/api/complaints".toList, some "/api/complaints".toList⟩

def steady : Host sig := ⟨fun n => n, id, fun n => n, fun _ => .ok ()⟩

/-- The database is gone after twenty operations. -/
def failing : Env := { Env.calm (fun _ _ _ => .error .triageTimeout) with dbFault := fun n => if n < 20 then none else some "OperationalError".toList }

/-- A complaint is submitted, and then another, while the database is gone. -/
def submitted : Pool (wrapped (@machine .ascii failing) steady) (Scope × App × Route) Unit :=
  Pool.schedule (@Framework.deployed plainFramework .ascii ⟨⟨2, 60⟩, true⟩)
    (.start 0 (posted, Request.replica, .createComplaint Request.someone Request.leak) :: List.replicate 40 (.exec 0) ++
      .start 1 (posted, Request.replica, .createComplaint Request.someone Request.leak) :: List.replicate 40 (.exec 1))
    (.fresh (Process.initial (World.initial Request.potholes)))

/-- A message that has no id is not the application's. -/
theorem stamp_ne_serverError (id : Str) (m : Message) : m.stamp id ≠ serverError := by
  cases m with
  | other kind => exact nofun
  | start status headers =>
    intro h
    injection h with _ h
    have hmem : ("x-request-id".toList, id) ∈ [("content-length".toList, "21".toList), ("content-type".toList, "text/plain; charset=utf-8".toList)] := by
      rw [← Option.some.inj h]
      exact List.mem_append_right _ List.mem_cons_self
    have hname : "x-request-id".toList ∈ ["content-length".toList, "content-type".toList] := List.mem_map_of_mem (f := Prod.fst) hmem
    exact absurd hname (by decide)

/-- The first is answered by the API, and the second by the outermost layer. -/
theorem api_deployed_submitted : ∃ (A : Pool (@machine .ascii failing) (Scope × App × Route) Answer) (c c' : Scope × App × Route)
    (r : Response) (x : Exc), Pool.Steps (fun c => @api .ascii ⟨⟨2, 60⟩, true⟩ c.2) (.fresh (World.initial Request.potholes)) A ∧
      A.threads 0 = some ⟨c, .ret (.response r)⟩ ∧ Relayed c.1 [plainFramework.start r, bodyMessage] (submitted.shared.messages 0) ∧
      A.threads 1 = some ⟨c', .ret (.failed x)⟩ ∧ submitted.shared.messages 1 = [serverError, bodyMessage] := by
  obtain ⟨hresult, hrefused, hscope, hthere⟩ : submitted.result 0 = some () ∧ submitted.shared.messages 1 = [serverError, bodyMessage] ∧
      ((submitted.threads 1).all fun t => t.call.1.http) = true ∧ (submitted.threads 1).isSome = true := by decide +kernel
  obtain ⟨c, hc⟩ := Pool.result_some hresult
  obtain ⟨⟨c', q⟩, hc'⟩ := Option.isSome_iff_exists.mp hthere
  obtain ⟨A, hA, -, -, hthreads⟩ := @api_deployed plainFramework .ascii ⟨⟨2, 60⟩, true⟩ failing steady (.initial Request.potholes)
    (fun _ _ _ _ he => by cases he) rfl submitted (Pool.schedule_steps _ _ _)
  obtain ⟨p, hp, hdelivered⟩ := hthreads 0 c _ hc
  obtain ⟨r, rfl, hrelayed⟩ := hdelivered.returned rfl
  obtain ⟨p', hp', hdelivered'⟩ := hthreads 1 c' q hc'
  obtain ⟨own, through, tail, -, hrelayed', hall, htail⟩ := hdelivered'.sent
  rw [hc'] at hscope
  have hhttp : c'.1.http = true := hscope
  obtain ⟨id, -, hthrough⟩ : ∃ id, Given c'.1 id ∧ through = own.map (Message.stamp id) := by
    unfold Relayed at hrelayed'
    rwa [if_pos hhttp] at hrelayed'
  rcases htail with rfl | ⟨-, ⟨x, rfl⟩, -⟩
  · -- the application would have to have sent it, under an id
    rw [hrefused, List.append_nil, hthrough] at hall
    cases own with
    | nil => cases hall
    | cons m own => exact absurd (List.cons.inj hall).1.symm (stamp_ne_serverError id m)
  · exact ⟨A, c, c', r, x, hA, hp, hrelayed, hp', hrefused⟩

end Asgi

end CivicPulse
