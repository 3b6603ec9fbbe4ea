/-
  CivicPulse.Services.Complaints — the repository, the statistics behind their cache, the
  complaint service, and the requests (`app/repositories/complaint_repository.py`,
  `app/services/stats_service.py`, `app/services/complaint_service.py`,
  `app/container.py`, `app/routes`).

  A request runs inside `Container.repository`: whatever it raises, the session is rolled
  back and closed.
-/

import CivicPulse.Services.Triage

namespace CivicPulse

open Text Lang

/-! ## Repository -/

structure Aggregates where
  total : Int
  byCategory : Dict Str Int
  byPriority : Dict Str Int
  byStatus : Dict Str Int
  byTriagedBy : Dict Str Int
  avgLatencyMs : Option ℚ

namespace Repository

def add (d : Draft) : Code Complaint := .op (.insert d) ofExcept

def setStatus (c : Complaint) (s : Status) : Code Complaint :=
  .op (.updateStatus c.id s) fun r => do
    let at_ ← ofExcept r
    return { c with status := s, updatedAt := at_ }

def commit : Code Unit := .op .commit ofExcept

def rollback : Code Unit := .op .rollback fun _ => .ret ()

def get (id : Uuid) (forUpdate : Bool) : Code (Option Complaint) :=
  if forUpdate then .op (.selectForUpdate id) ofExcept else .op (.select (.byId id)) ofExcept

/-- Insert unless there is a row with the id; whether it was inserted. -/
def addIfAbsent (c : Complaint) : Code Bool := do
  match ← get c.id false with
  | some _ => return false
  | none => .op (.insertRow c) fun r => do
    ofExcept r
    return true

/-- `SELECT pg_advisory_xact_lock(727274002)`. -/
def lockForSeed : Code Unit := .op (.advisoryLock 727274002) ofExcept

/-- The number of complaints, and one page of them. -/
def list (f : ComplaintFilters) (page pageSize : Int) : Code (List Complaint × Int) :=
  .op (.select (.count f)) fun r => do
    let total ← ofExcept (r : Except Exc Nat)
    .op (.select (.page f ((page - 1) * pageSize) pageSize)) fun r => do
      let rows ← ofExcept (r : Except Exc (List Complaint))
      return (rows, (total : Int))

/-- `grouped(col)`: one `SELECT`, its rows as a dict. -/
def grouped (col : Table.Column) : Code (Dict Str Int) :=
  .op (.select (.groupBy col)) fun r => do
    let rows ← ofExcept (r : Except Exc (List (Str × Nat)))
    return Dict.ofList (rows.map fun kv => (kv.1, (kv.2 : Int)))

/-- Five statements, in this order. -/
def aggregates : Code Aggregates :=
  .op (.select .countAvg) fun r => do
    let counted ← ofExcept (r : Except Exc (Nat × Option ℚ))
    let byCategory ← grouped .category
    let byPriority ← grouped .priority
    let byStatus ← grouped .status
    let byTriagedBy ← grouped .triagedBy
    return ⟨counted.1, byCategory, byPriority, byStatus, byTriagedBy, counted.2⟩

end Repository

/-! ## Statistics -/

def STATS_KEY : Str := "stats:v1".toList

/-- `round(x, 1)`, the average read as an exact number: to one decimal, halves to even. The
    code rounds the double nearest to it, which can lie on the other side of a half. -/
def round1 (x : ℚ) : PyFloat :=
  let f := ⌊x * 10⌋
  let d := x * 10 - f
  .fin ⟨if d < 1 / 2 then f else if 1 / 2 < d then f + 1 else if f % 2 = 0 then f else f + 1, 0⟩

namespace StatsService

/-- `{c: agg.get(c.value, 0) for c in Cls}`. -/
def counts (α : Type) [DecidableEq α] [StrEnum α] (d : Dict Str Int) : Dict α Int :=
  Dict.ofFn members StrEnum.nodup fun a => (d.get (value a)).getD 0

def statsOf (agg : Aggregates) (generatedAt : Int) : StatsOut where
  total := agg.total
  byCategory := counts Category agg.byCategory
  byPriority := counts Priority agg.byPriority
  byStatus := counts Status agg.byStatus
  byTriagedBy := agg.byTriagedBy
  avgTriageLatencyMs := agg.avgLatencyMs.map round1
  generatedAt := generatedAt

variable [Platform]

/-- The figures from the table, put in the cache. -/
def compute (ttl : Int) : Code (StatsOut × Bool) := do
  let agg ← Repository.aggregates
  .op .utcnow fun (at_ : Int) => do
    JsonCache.set STATS_KEY (statsOf agg at_).modelDump ttl
    return (statsOf agg at_, false)

/-- The figures, and whether they are the cache's. -/
def get (ttl : Int) : Code (StatsOut × Bool) := do
  match ← JsonCache.get STATS_KEY with
  | .null => compute ttl
  | cached => return (← ofExcept (StatsOut.modelValidate cached), true)

omit [Platform] in
def invalidate : Code Unit := JsonCache.delete [STATS_KEY]

end StatsService

/-! ## Complaints -/

/-- `str(uuid)`. -/
def uuidText (id : Uuid) : Str :=
  let digits := (List.range 32).map fun k => Nat.digitChar (id / 16 ^ (31 - k) % 16)
  digits.take 8 ++ '-' :: (digits.drop 8).take 4 ++ '-' :: (digits.drop 12).take 4 ++ '-' :: (digits.drop 16).take 4 ++
    '-' :: digits.drop 20

namespace ComplaintService

/-- The row `create` builds from a body and an outcome. -/
def draft (id : Uuid) (data : ComplaintCreate) (r : TriageResult) (o : TriageOutcome) : Draft where
  id := id
  text := data.text.str
  location := data.location.str
  reporterContact := data.reporterContact.map (·.str)
  category := r.category
  priority := r.priority
  status := .open_
  aiSummary := some r.summary
  triagedBy := o.triagedBy
  triageLatencyMs := o.latencyMs

variable [Platform]

def create (svc : TriageService) (data : ComplaintCreate) : Code Complaint :=
  .op .uuid4 fun (id : Uuid) => do
    let outcome ← svc.triage (uuidText id) data.text.str data.location.str
    match outcome.result with
    | none => throw .attributeError
    | some result =>
      let complaint ← Repository.add (draft id data result outcome)
      Repository.commit
      StatsService.invalidate
      return complaint

omit [Platform] in
section

def get (id : Uuid) : Code Complaint := do
  match ← Repository.get id false with
  | none => throw (.notFoundError "complaint".toList)
  | some complaint => return complaint

def list (f : ComplaintFilters) (page pageSize : Int) : Code (List Complaint × Int) := Repository.list f page pageSize

def changeStatus (id : Uuid) (target : Status) : Code Complaint := do
  match ← Repository.get id true with
  | none => throw (.notFoundError "complaint".toList)
  | some complaint =>
    if canTransition complaint.status target then
      let complaint ← Repository.setStatus complaint target
      Repository.commit
      StatsService.invalidate
      return complaint
    else
      Repository.rollback
      throw (.invalidTransitionError complaint.status target)

end

end ComplaintService

/-! ## Requests -/

/-- One replica's settings. -/
structure App where
  triage : TriageService
  statsTtl : Int
  deriving DecidableEq

/-- A request to a route that has a session. What does not validate is found out when the
    session is open, and never reaches the route's own code. -/
inductive Call where
  | create (data : ComplaintCreate)
  | changeStatus (id : Uuid) (target : Status)
  | stats
  | get (id : Uuid)
  | list (f : ComplaintFilters) (page pageSize : Int)
  | invalid (errors : List FieldError)

inductive Reply where
  | complaint (c : Complaint)
  | stats (s : StatsOut) (hit : Bool)
  | page (items : List Complaint) (total : Int)
  deriving DecidableEq

/-- `with container.repository() as repo`. -/
def repository {α : Type} (body : Code α) : Code α :=
  Prog.finally_ (tryCatch body fun e => do Repository.rollback; throw e) (.op .close fun _ => .ret ())

/-- What a request does, on the replica that serves it. -/
def service [Platform] (app : App) : Call → Code Reply
  | .create data => Reply.complaint <$> ComplaintService.create app.triage data
  | .changeStatus id target => Reply.complaint <$> ComplaintService.changeStatus id target
  | .stats => (fun r => Reply.stats r.1 r.2) <$> StatsService.get app.statsTtl
  | .get id => Reply.complaint <$> ComplaintService.get id
  | .list f page pageSize => (fun r => Reply.page r.1 r.2) <$> ComplaintService.list f page pageSize
  | .invalid errors => throw (.requestValidationError errors)

def serve [Platform] (c : App × Call) : Code Reply := repository (service c.1 c.2)

end CivicPulse
