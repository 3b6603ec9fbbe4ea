/-
  CivicPulse.Http.Api — the complaints' and statistics' routes (`app/routes/complaints.py`,
  `app/routes/stats.py`, `app/deps.py`, `app/errors.py`).

  A route gets what has passed its checks; a request that does not validate has been counted
  by the limiter, and has opened its session, when that is found out. (A body that is no JSON
  is refused before both, and is no request of the model.) What is raised goes to the handler
  of its class; a class without a handler is the server's to answer, with status 500.
  - `api_eq`: a route is a check that may answer by itself, a request, and the rendering of
    the request's reply.
  - `list_answered`: a listing is answered with its page, with what is wrong with its query,
    or fails with the database's refusal.
-/

import CivicPulse.Lang.Prologue
import CivicPulse.Services.Listing

namespace CivicPulse

open Text Lang

/-! ## Clients -/

/-- What `client_ip` reads of a request. -/
structure Peer where
  realIp : Option Str
  forwardedFor : Option Str
  host : Option Str

/-- The settings the limiter is built and asked with. -/
structure Gate where
  limiter : RateLimiter
  trustProxyHeaders : Bool

/-- A header that is there and is not empty. -/
def truthy (h : Option Str) : Option Str := h.filter fun s => !s.isEmpty

def clientIp (p : Peer) (trustProxy : Bool) : Str :=
  if trustProxy then
    match truthy p.realIp with
    | some real => strip real
    | none => match truthy p.forwardedFor with
      | some fwd => strip (fwd.takeWhile (· != ','))
      | none => p.host.getD "unknown".toList
  else p.host.getD "unknown".toList

/-! ## Responses -/

inductive Content where
  | complaint (c : ComplaintOut)
  | page (p : ComplaintPage)
  | stats (s : StatsOut)
  | json (j : Json)

structure Response where
  status : Nat
  headers : List (Str × Str)
  body : Content

/-- A response, or an exception that no handler is for. -/
inductive Answer where
  | response (r : Response)
  | failed (e : Exc)

/-- A JSON object of texts. -/
def textObject (fields : List (Str × Str)) : Json := .obj (fields.map fun f => (codes f.1, .str (codes f.2)))

def removeprefix (s p : Str) : Str := if p <+: s then s.drop p.length else s

/-- `_field_name`. -/
def fieldName (loc : List Str) : Str :=
  let parts := loc.filter fun p => !(["body".toList, "query".toList, "path".toList].contains p)
  if (join ['.'] parts).isEmpty then "body".toList else join ['.'] parts

/-- An entry of the list that a request which does not validate is answered with. -/
def FieldError.json (e : FieldError) : Json :=
  textObject [("field".toList, fieldName e.loc), ("message".toList, removeprefix e.msg "Value error, ".toList)]

/-- `register_error_handlers`. -/
def handler (e : Exc) : Answer :=
  match e with
  | .requestValidationError errors =>
    .response ⟨400, [], .json (.obj [(codes "detail".toList, .str (codes "Validation failed".toList)),
      (codes "errors".toList, .arr (errors.map FieldError.json))])⟩
  | .notFoundError _ => .response ⟨404, [], .json (textObject [("detail".toList, e.message)])⟩
  | .invalidTransitionError current attempted =>
    .response ⟨409, [], .json (textObject [("detail".toList, e.message), ("current".toList, value current),
      ("attempted".toList, value attempted)])⟩
  | .rateLimitExceededError retryAfter =>
    .response ⟨429, [("Retry-After".toList, intText retryAfter)], .json (textObject [("detail".toList, e.message)])⟩
  | e => .failed e

/-! ## Routes -/

/-- A request to one of the routes; `invalidComplaint` is a complaint, and `invalid` any other
    request, that does not validate. -/
inductive Route where
  | createComplaint (peer : Peer) (body : ComplaintCreate)
  | listComplaints (q : ListQuery)
  | getComplaint (id : Uuid)
  | changeStatus (id : Uuid) (status : Status)
  | getStats
  | invalidComplaint (peer : Peer) (errors : List FieldError)
  | invalid (errors : List FieldError)

/-- `GET /api/complaints`, of whatever query. -/
def Route.listing (filters : ComplaintFilters) (page pageSize : Option Int) : Route :=
  match ListQuery.validate filters page pageSize with
  | .ok q => .listComplaints q
  | .error errors => .invalid errors

variable [Platform] (g : Gate)

omit [Platform] in
def enforceRateLimit (peer : Peer) : Code Unit := do
  let decision ← g.limiter.hit (clientIp peer g.trustProxyHeaders) none
  if decision.allowed then return () else throw (.rateLimitExceededError decision.retryAfter)

def createComplaint (app : App) (peer : Peer) (body : ComplaintCreate) : Code Response := do
  enforceRateLimit g peer
  (fun c => ⟨201, [], .complaint (toOut c)⟩) <$> repository (ComplaintService.create app.triage body)

omit [Platform] in
def getComplaint (id : Uuid) : Code Response :=
  (fun c => ⟨200, [], .complaint (toOut c)⟩) <$> repository (ComplaintService.get id)

omit [Platform] in
def changeStatus (id : Uuid) (status : Status) : Code Response :=
  (fun c => ⟨200, [], .complaint (toOut c)⟩) <$> repository (ComplaintService.changeStatus id status)

def getStats (app : App) : Code Response :=
  (fun r => ⟨200, [("X-Cache".toList, if r.2 then "HIT".toList else "MISS".toList), ("Cache-Control".toList, "no-store".toList)],
    .stats r.1⟩) <$> repository (StatsService.get app.statsTtl)

omit [Platform] in
/-- The session that was opened for the route is closed. -/
def invalid (errors : List FieldError) : Code Response := repository (throw (.requestValidationError errors))

def route (c : App × Route) : Code Response :=
  match c.2 with
  | .createComplaint peer body => createComplaint g c.1 peer body
  | .listComplaints q => (fun p => ⟨200, [], .page p⟩) <$> listComplaints q
  | .getComplaint id => getComplaint id
  | .changeStatus id status => changeStatus id status
  | .getStats => getStats c.1
  | .invalidComplaint peer errors => do enforceRateLimit g peer; invalid errors
  | .invalid errors => invalid errors

def api (c : App × Route) : Code Answer := tryCatch (Answer.response <$> route g c) fun e => return handler e

/-! ## Checks, requests and replies -/

def Route.call : Route → Call
  | .createComplaint _ body => .create body
  | .listComplaints q => .list q.filters q.page q.pageSize
  | .getComplaint id => .get id
  | .changeStatus id status => .changeStatus id status
  | .getStats => .stats
  | .invalidComplaint _ errors | .invalid errors => .invalid errors

/-- Who submits a complaint. -/
def Route.submitter : Route → Option Peer
  | .createComplaint peer _ | .invalidComplaint peer _ => some peer
  | _ => none

def Route.status : Route → Nat
  | .createComplaint _ _ => 201
  | _ => 200

/-- The page that a route asks for. -/
def Route.pageOf : Route → Int × Int
  | .listComplaints q => (q.page, q.pageSize)
  | _ => (1, 20)

/-- How a route renders a request's reply. -/
def Route.render (r : Route) : Reply → Response
  | .complaint c => ⟨r.status, [], .complaint (toOut c)⟩
  | .page items total => ⟨r.status, [], .page ⟨items.map toOut, total, r.pageOf.1, r.pageOf.2⟩⟩
  | .stats s hit => ⟨r.status, [("X-Cache".toList, if hit then "HIT".toList else "MISS".toList),
      ("Cache-Control".toList, "no-store".toList)], .stats s⟩

def answer (c : App × Route) : Except Exc Reply → Answer
  | .ok reply => .response (c.2.render reply)
  | .error e => handler e

omit [Platform] in
/-- The check in front of a request; it may answer by itself. -/
def front (c : App × Route) : Code (Answer ⊕ (App × Call)) :=
  match c.2.submitter with
  | some peer => tryCatch (do enforceRateLimit g peer; return .inr (c.1, c.2.call)) fun e => return .inl (handler e)
  | none => return .inr (c.1, c.2.call)

omit [Platform] in
theorem repository_map {α β : Type} (f : α → β) (body : Code α) : repository (f <$> body) = f <$> repository body := by
  induction body with
  | ret a => rfl
  | raise e => rfl
  | op o k ih => exact congrArg (Prog.op o) (funext ih)

omit [Platform] in
/-- A check and then a request, under one handler. -/
theorem checked_eq {α β γ : Type} (p : Code Unit) (code : β → Code α) (f : Except Exc α → γ) (d : β) :
    (tryCatch (p >>= fun _ => (fun a => f (.ok a)) <$> code d) fun e => .ret (f (.error e))) =
      (tryCatch (p >>= fun _ => .ret (Sum.inr d)) fun e => .ret (.inl (f (.error e)))) >>=
        Sum.elim .ret fun d => (code d).exits f := by
  induction p with
  | ret a => exact Prog.exits_eq f (code d)
  | raise e => rfl
  | op o k ih => exact congrArg (Prog.op o) (funext ih)

omit [Platform] in
theorem answered_eq {α : Type} (c : App × Route) (body : Code α) (f : α → Reply) :
    (tryCatch (Answer.response <$> (fun a => c.2.render (f a)) <$> repository body) fun e => .ret (handler e)) =
      (repository (f <$> body)).exits (answer c) := by
  rw [repository_map, ← Prog.exits_eq]
  generalize repository body = p
  induction p with
  | ret a => rfl
  | raise e => rfl
  | op o k ih => exact congrArg (Prog.op o) (funext ih)

theorem api_eq : api g = fronted (front g) serve answer := by
  funext c
  obtain ⟨app, r⟩ := c
  cases r with
  | createComplaint peer body =>
    refine Eq.trans ?_ (checked_eq (enforceRateLimit g peer) serve (answer (app, .createComplaint peer body)) (app, .create body))
    show tryCatch (Answer.response <$> (enforceRateLimit g peer >>= fun _ => _ <$> repository _)) _ = _
    rw [serve, service, repository_map]
    generalize enforceRateLimit g peer = p
    generalize repository (ComplaintService.create app.triage body) = q
    induction p with
    | ret a =>
      induction q with
      | ret a => rfl
      | raise e => rfl
      | op o k ih => exact congrArg (Prog.op o) (funext ih)
    | raise e => rfl
    | op o k ih => exact congrArg (Prog.op o) (funext ih)
  | listComplaints q =>
    show (tryCatch (Answer.response <$> _ <$> repository (_ <$> _)) _) = (repository (_ <$> _)).exits _
    rw [repository_map, repository_map]
    generalize repository (ComplaintService.list q.filters q.page q.pageSize) = p
    induction p with
    | ret a => rfl
    | raise e => rfl
    | op o k ih => exact congrArg (Prog.op o) (funext ih)
  | getComplaint id => exact answered_eq (app, .getComplaint id) (ComplaintService.get id) .complaint
  | changeStatus id status => exact answered_eq (app, .changeStatus id status) (ComplaintService.changeStatus id status) .complaint
  | getStats => exact answered_eq (app, .getStats) (StatsService.get app.statsTtl) fun r => .stats r.1 r.2
  | invalidComplaint peer errors =>
    refine Eq.trans ?_ (checked_eq (enforceRateLimit g peer) serve (answer (app, .invalidComplaint peer errors)) (app, .invalid errors))
    show tryCatch (Answer.response <$> (enforceRateLimit g peer >>= fun _ => _)) _ = _
    generalize enforceRateLimit g peer = p
    induction p with
    | ret a => rfl
    | raise e => rfl
    | op o k ih => exact congrArg (Prog.op o) (funext ih)
  | invalid errors => rfl

/-! ## A listing, alone -/

/-- How a listing is answered at a table. -/
def Route.listed (t : Table) (filters : ComplaintFilters) (page pageSize : Option Int) : Answer :=
  match ListQuery.validate filters page pageSize with
  | .ok q => if InRange t q.filters q.page q.pageSize then .response ⟨200, [], .page (q.answer t)⟩ else .failed World.refused
  | .error errors => handler (.requestValidationError errors)

/-- What a route comes to, and its exception's handler. -/
def handled : Except Exc Response → Answer
  | .ok r => .response r
  | .error e => handler e

omit [Platform] in
theorem handled_run {M : Machine sig} {i : Nat} (code : Code Response) (w : M.State) :
    ((tryCatch (Answer.response <$> code) fun e => return handler e).run M i w).1 = .ok (handled (code.run M i w).1) := by
  rw [Prog.run_tryCatch, Prog.run_map]
  rcases code.run M i w with ⟨_ | _, _⟩ <;> rfl

theorem list_answered {E : Env} {i : Nat} {w : World} (hE : ∀ n, E.dbFault n = none) (hidle : w.db.pending i = []) (app : App)
    (filters : ComplaintFilters) (page pageSize : Option Int) :
    ((api g (app, .listing filters page pageSize)).run (machine E) i w).1 =
      .ok (Route.listed w.db.table filters page pageSize) := by
  rw [api, handled_run, Route.listing, Route.listed]
  cases ListQuery.validate filters page pageSize with
  | ok q =>
    show Except.ok (handled (((fun p => _) <$> listComplaints q : Code Response).run (machine E) i w).1) = _
    rw [Prog.run_map, listComplaints_answer hE hidle]
    by_cases h : InRange w.db.table q.filters q.page q.pageSize
    · rw [if_pos h]
      simp only [if_pos h]
      rfl
    · rw [if_neg h]
      simp only [if_neg h]
      rfl
  | error errors =>
    show Except.ok (handled ((repository (throw (.requestValidationError errors)) : Code Response).run (machine E) i w).1) = _
    rw [run_repository]
    rfl

end CivicPulse
