/-
  CivicPulse.Store.World — what every replica's code acts on: one Redis, one PostgreSQL
  database, the triage providers, the clock, the log.

  An `Op` is one step another thread can get in between: one Redis command or pipeline,
  one statement of a session, one call of a provider. An `Env` fixes everything the
  program does not decide: delays, faults, evictions, generated ids, what a provider
  answers. `machine E` is the machine the programs of `CivicPulse.Services` run on.

  The database is READ COMMITTED: a statement sees the rows committed before it and its
  own session's writes. `SELECT … FOR UPDATE`, `INSERT` and `UPDATE` take the row's lock
  and wait while another session holds it, as does an advisory lock; commit and rollback
  release.
  - `exec_redis`: what an operation can leave under a Redis key.
  - `exec_get`: what is read was there.
  - `select_cases` … `commit_cases`: what a statement answers and leaves in the database.
  - `exec_db`: what any operation leaves in the database.
  - `trace_exec`: a session's trace grows by what it performs.
-/

import CivicPulse.Lang.Paging
import CivicPulse.Lang.Pool
import CivicPulse.Store.Redis
import CivicPulse.Store.Table
import CivicPulse.Triage.Rules

namespace CivicPulse

open Text Lang

/-! ## Providers -/

/-- A `TriageProvider`: the keyword rules, or one whose answers are not the program's. -/
inductive Provider where
  | rules
  | external (name : Str)
  deriving DecidableEq, Repr

def Provider.name : Provider → Str
  | rules => "rules".toList
  | external name => name

/-- Which of a service's two providers is called. -/
inductive Role where
  | primary
  | fallback
  deriving DecidableEq, Repr

/-! ## The database -/

/-- One committed transaction that wrote something, and the table after it. -/
structure Commit where
  tid : Nat
  writes : List Write
  table : Table

structure Db where
  /-- The committed rows. -/
  table : Table
  /-- Newest first. -/
  commits : List Commit
  /-- Each session's writes, oldest first. -/
  pending : Nat → List Write
  /-- Which session holds a row's lock. -/
  locks : Uuid → Option Nat
  /-- Which session holds an advisory lock. -/
  advisory : Int → Option Nat

/-- An ORM object before it is flushed; `triaged_by` is whatever the outcome holds. -/
structure Draft where
  id : Uuid
  text : Str
  location : Str
  reporterContact : Option Str
  category : Category
  priority : Priority
  status : Status
  aiSummary : Option Str
  triagedBy : Json
  triageLatencyMs : Int

/-- The row, with the times its defaults give. A `triaged_by` that is no text is taken to fit
    no column; the driver and the database would cast some of these. -/
def Draft.row (d : Draft) (createdAt updatedAt : Int) : Option Complaint :=
  (strOf d.triagedBy).map fun triagedBy =>
    ⟨d.id, d.text, d.location, d.reporterContact, d.category, d.priority, d.status, d.aiSummary, triagedBy,
      d.triageLatencyMs, createdAt, updatedAt⟩

inductive Query where
  | countAvg
  | groupBy (col : Table.Column)
  | byId (id : Uuid)
  | count (f : ComplaintFilters)
  | page (f : ComplaintFilters) (offset limit : Int)
  deriving DecidableEq

@[reducible] def Query.Ans : Query → Type
  | countAvg => Nat × Option ℚ
  | groupBy _ => List (Str × Nat)
  | byId _ => Option Complaint
  | count _ => Nat
  | page _ _ _ => List Complaint

def Query.eval (t : Table) : (q : Query) → q.Ans
  | countAvg => (t.rows.length, t.avgLatency)
  | groupBy col => t.groupBy col
  | byId id => t.find id
  | count f => t.rows.countP f.keeps
  | page f offset limit => Lang.page Complaint.order offset.toNat limit.toNat (t.rows.filter f.keeps)

/-- `count(*)` is a `bigint`, and so are `OFFSET` and `LIMIT`, which are not negative. -/
def Query.fits (t : Table) : Query → Bool
  | byId _ => true
  | count f => t.rows.countP f.keeps < 2 ^ 63
  | page _ offset limit => 0 ≤ offset && offset < 2 ^ 63 && 0 ≤ limit && limit < 2 ^ 63
  | _ => t.rows.length < 2 ^ 63

namespace Db

/-- What a session sees. -/
def view (db : Db) (i : Nat) : Table := db.table.after (db.pending i)

def free (db : Db) (i : Nat) (id : Uuid) : Bool := (db.locks id).all (· == i)

def lock (db : Db) (i : Nat) (id : Uuid) : Uuid → Option Nat := Function.update db.locks id (some i)

def write (db : Db) (i : Nat) (w : Write) (id : Uuid) : Db :=
  { db with pending := Function.update db.pending i (db.pending i ++ [w]), locks := db.lock i id }

/-- The session's transaction is over; its locks are released. -/
def finish (db : Db) (i : Nat) : Db :=
  { db with pending := Function.update db.pending i [],
            locks := fun id => if db.locks id = some i then none else db.locks id,
            advisory := fun key => if db.advisory key = some i then none else db.advisory key }

def commit (db : Db) (i : Nat) : Db :=
  let t := db.view i
  if (db.pending i).isEmpty then db.finish i
  else { db.finish i with table := t, commits := ⟨i, db.pending i, t⟩ :: db.commits }

end Db

/-! ## Operations -/

inductive Op where
  -- Redis
  | get (key : Str)
  | set (key val : Str) (ex : Int)
  | delete (keys : List Str)
  | incr (key : Str)
  | pushTrim (key val : Str) (stop : Int)
  | lrange (key : Str) (stop : Int)
  | incrExpire (key : Str) (ttl : Int)
  | ping
  -- the session
  | select (q : Query)
  | selectForUpdate (id : Uuid)
  | insert (d : Draft)
  | updateStatus (id : Uuid) (s : Status)
  -- a row with its times
  | insertRow (c : Complaint)
  | advisoryLock (key : Int)
  | commit
  | rollback
  | close
  -- the provider
  | triage (role : Role) (p : Provider) (text location : Str)
  -- the process
  | perfCounter
  | time
  | utcnow
  | uuid4
  | warn (msg : Str) (extra : List (Str × Str))

@[reducible] def Op.Ans : Op → Type
  | get _ => Except Exc (Option Raw)
  | set _ _ _ => Except Exc Unit
  | delete _ => Except Exc Unit
  | incr _ => Except Exc Int
  | pushTrim _ _ _ => Except Exc Unit
  | lrange _ _ => Except Exc (List Str)
  | incrExpire _ _ => Except Exc Int
  | ping => Except Exc Unit
  | select q => Except Exc q.Ans
  | selectForUpdate _ => Except Exc (Option Complaint)
  | insert _ => Except Exc Complaint
  | updateStatus _ _ => Except Exc Int
  | insertRow _ => Except Exc Unit
  | advisoryLock _ => Except Exc Unit
  | commit => Except Exc Unit
  | rollback => Unit
  | close => Unit
  -- a result, or an object that has no `model_dump`
  | triage _ _ _ _ => Except Exc (Option TriageResult)
  | perfCounter => ℚ
  | time => ℚ
  | utcnow => Int
  | uuid4 => Uuid
  | warn _ _ => Unit

abbrev sig : Sig := ⟨Op, Op.Ans, Exc⟩

abbrev Code (α : Type) := Prog sig α

/-! ## The machine -/

structure Event where
  tid : Nat
  op : Op
  ans : op.Ans

structure World where
  clock : ℚ
  ticks : Nat
  redis : Redis
  db : Db
  /-- Newest first. -/
  log : List Event

/-- What the program does not decide; the `n`-th operation of a run reads entry `n`. -/
structure Env where
  /-- How much time passes before the operation. -/
  delay : Nat → ℚ
  delay_nonneg : ∀ n, 0 ≤ delay n
  /-- `datetime.now(UTC)`, for each call during the operation. -/
  utc : Nat → Nat → Int
  uuid : Nat → Uuid
  fault : Nat → Option Redis.Fault
  /-- The keys that are gone before their time. -/
  evict : Nat → List Str
  dbFault : Nat → Option Str
  reply : Nat → Str → Str → Str → Except Exc (Option TriageResult)

/-- Redis answers every command. -/
def Env.Healthy (E : Env) : Prop := ∀ n, E.fault n = none

namespace World

/-- A statement the database refuses. -/
def refused : Exc := .databaseError "DBAPIError".toList

variable [Platform] (E : Env) (i : Nat)

def now (w : World) : ℚ := w.clock + E.delay w.ticks

def cache (w : World) : Redis := w.redis.drop (E.evict w.ticks)

/-- A Redis command, with this operation's fault. -/
def redisOp {α : Type} (w : World) (cmd : Redis → Except Exc α × Redis) : Except Exc α × Redis × Db :=
  ((Redis.faulty (E.fault w.ticks) cmd (w.cache E)).1, (Redis.faulty (E.fault w.ticks) cmd (w.cache E)).2, w.db)

/-- A statement, unless the connection fails; what fails has had no effect, a `COMMIT` included. -/
def dbOp {α : Type} (w : World) (stmt : Db → Except Exc α × Db) : Except Exc α × Redis × Db :=
  match E.dbFault w.ticks with
  | some cls => (.error (.databaseError cls), w.cache E, w.db)
  | none => ((stmt w.db).1, w.cache E, (stmt w.db).2)

def selectStmt (q : Query) (db : Db) : Except Exc q.Ans × Db :=
  if q.fits (db.view i) then (.ok (q.eval (db.view i)), db) else (.error refused, db)

def insertStmt (createdAt updatedAt : Int) (d : Draft) (db : Db) : Except Exc Complaint × Db :=
  match d.row createdAt updatedAt with
  | none => (.error refused, db)
  | some c =>
    if c.Constraints ∧ int4 c.triageLatencyMs = true then
      if c.id ∈ (db.view i).ids then (.error refused, db) else (.ok c, db.write i (.insert c) c.id)
    else (.error refused, db)

def insertRowStmt (c : Complaint) (db : Db) : Except Exc Unit × Db :=
  if c.Constraints ∧ int4 c.triageLatencyMs = true then
    if c.id ∈ (db.view i).ids then (.error refused, db) else (.ok (), db.write i (.insert c) c.id)
  else (.error refused, db)

/-- The locked row as it is committed now. -/
def selectForUpdateStmt (id : Uuid) (db : Db) : Except Exc (Option Complaint) × Db :=
  match (db.view i).find id with
  | none => (.ok none, db)
  | some c => (.ok (some c), { db with locks := db.lock i id })

def effect (w : World) : (o : Op) → o.Ans × Redis × Db
  | .get key => w.redisOp E (Redis.get (w.now E) key)
  | .set key val ex => w.redisOp E (Redis.set (w.now E) key val ex)
  | .delete keys => w.redisOp E (Redis.delete keys)
  | .incr key => w.redisOp E (Redis.incr (w.now E) key)
  | .pushTrim key val stop => w.redisOp E (Redis.pushTrim (w.now E) key val stop)
  | .lrange key stop => w.redisOp E (Redis.lrange (w.now E) key stop)
  | .incrExpire key ttl => w.redisOp E (Redis.incrExpire (w.now E) key ttl)
  | .ping => w.redisOp E fun r => (.ok (), r)
  | .select q => w.dbOp E (selectStmt i q)
  | .selectForUpdate id => w.dbOp E (selectForUpdateStmt i id)
  | .insert d => w.dbOp E (insertStmt i (E.utc w.ticks 0) (E.utc w.ticks 1) d)
  | .updateStatus id s => w.dbOp E fun db => (.ok (E.utc w.ticks 0), db.write i (.setStatus id s (E.utc w.ticks 0)) id)
  | .insertRow c => w.dbOp E (insertRowStmt i c)
  | .advisoryLock key => w.dbOp E fun db => (.ok (), { db with advisory := Function.update db.advisory key (some i) })
  | .commit => w.dbOp E fun db => (.ok (), db.commit i)
  | .rollback => ((), w.cache E, w.db.finish i)
  | .close => ((), w.cache E, w.db.finish i)
  | .triage _ .rules text location => ((Rules.triage text location).map some, w.cache E, w.db)
  | .triage _ (.external name) text location => (E.reply w.ticks name text location, w.cache E, w.db)
  | .perfCounter => (w.now E, w.cache E, w.db)
  | .time => (w.now E, w.cache E, w.db)
  | .utcnow => (E.utc w.ticks 0, w.cache E, w.db)
  | .uuid4 => (E.uuid w.ticks, w.cache E, w.db)
  | .warn _ _ => ((), w.cache E, w.db)

def exec (o : Op) (w : World) : o.Ans × World :=
  ((w.effect E i o).1,
    { clock := w.now E, ticks := w.ticks + 1, redis := (w.effect E i o).2.1, db := (w.effect E i o).2.2,
      log := ⟨i, o, (w.effect E i o).1⟩ :: w.log })

/-- A statement that takes a lock waits for another session's; a `SELECT` finds only rows
    it can see. -/
def enabled (o : Op) (w : World) : Bool :=
  match o with
  | .selectForUpdate id => w.db.free i id || !(w.db.view i).ids.contains id
  | .insert d => w.db.free i d.id
  | .updateStatus id _ => w.db.free i id
  | .insertRow c => w.db.free i c.id
  | .advisoryLock key => (w.db.advisory key).all (· == i)
  | _ => true

/-- What a session has performed and been answered, newest first. -/
def trace (w : World) : List (Σ o : Op, o.Ans) := w.log.filterMap fun e => if e.tid = i then some ⟨e.op, e.ans⟩ else none

end World

/-! ## What one operation does -/

namespace World

variable [Platform] {E : Env} {i : Nat} {w : World}

omit [Platform] in
theorem cache_some {k : Str} {e : Entry} (h : w.cache E k = some e) : w.redis k = some e := Redis.drop_some h

omit [Platform] in
theorem redisOp_some {α : Type} {cmd : Redis → Except Exc α × Redis} {k : Str} {e : Entry} {C : Prop}
    (hc : ∀ r : Redis, (cmd r).2 k = some e → r k = some e ∨ C) (h : (w.redisOp E cmd).2.1 k = some e) :
    w.redis k = some e ∨ C := by
  rcases Redis.faulty_cases (E.fault w.ticks) cmd (w.cache E) with hf | ⟨_, _, hf | hf⟩
  · exact (hc _ (by rw [← hf]; exact h)).imp_left cache_some
  · exact .inl (cache_some (by rw [← hf]; exact h))
  · exact (hc _ (by rw [← hf]; exact h)).imp_left cache_some

omit [Platform] in
theorem dbOp_cache {α : Type} (stmt : Db → Except Exc α × Db) : (w.dbOp E stmt).2.1 = w.cache E := by
  unfold dbOp
  split <;> rfl

/-- An entry found after an operation was there before it, or is what the operation puts
    under its key. -/
theorem exec_redis {o : Op} {k : Str} {e : Entry} (h : (exec E i o w).2.redis k = some e) :
    w.redis k = some e ∨ (∃ v ex, o = .set k v ex ∧ e.val = .str (.text v)) ∨
      o = .incr k ∨ (∃ v n, o = .pushTrim k v n) ∨ ∃ t, o = .incrExpire k t := by
  have keep : (exec E i o w).2.redis = w.cache E → w.redis k = some e := fun he => cache_some (he ▸ h)
  cases o with
  | get key => exact .inl ((redisOp_some (C := False) (fun r hr => .inl (by rwa [Redis.get_snd] at hr)) h).resolve_right id)
  | set key v ex =>
    refine (redisOp_some (fun r hr => Redis.set_some hr) h).imp_right fun hk => .inl ?_
    obtain ⟨rfl, rfl⟩ := hk
    exact ⟨v, ex, rfl, rfl⟩
  | delete keys => exact .inl ((redisOp_some (C := False) (fun r hr => .inl (Redis.drop_some hr)) h).resolve_right id)
  | incr key =>
    refine (redisOp_some (fun r hr => Redis.incr_some hr) h).imp_right fun hk => .inr (.inl ?_)
    rw [hk]
  | pushTrim key v n =>
    refine (redisOp_some (fun r hr => Redis.pushTrim_some hr) h).imp_right fun hk => .inr (.inr (.inl ⟨v, n, ?_⟩))
    rw [hk]
  | lrange key stop =>
    exact .inl ((redisOp_some (C := False) (fun r hr => .inl (by rwa [Redis.lrange_snd] at hr)) h).resolve_right id)
  | incrExpire key t =>
    refine (redisOp_some (fun r hr => Redis.incrExpire_some hr) h).imp_right fun hk => .inr (.inr (.inr ⟨t, ?_⟩))
    rw [hk]
  | ping => exact .inl ((redisOp_some (C := False) (fun r hr => .inl hr) h).resolve_right id)
  | select q => exact .inl (keep (dbOp_cache _))
  | selectForUpdate id => exact .inl (keep (dbOp_cache _))
  | insert d => exact .inl (keep (dbOp_cache _))
  | updateStatus id s => exact .inl (keep (dbOp_cache _))
  | insertRow c => exact .inl (keep (dbOp_cache _))
  | advisoryLock key => exact .inl (keep (dbOp_cache _))
  | commit => exact .inl (keep (dbOp_cache _))
  | rollback => exact .inl (keep rfl)
  | close => exact .inl (keep rfl)
  | triage role p text location => cases p <;> exact .inl (keep rfl)
  | perfCounter => exact .inl (keep rfl)
  | time => exact .inl (keep rfl)
  | utcnow => exact .inl (keep rfl)
  | uuid4 => exact .inl (keep rfl)
  | warn msg extra => exact .inl (keep rfl)

/-- What is read under a key is there, as it was stored. -/
theorem exec_get {k : Str} {raw : Raw} (h : (exec E i (.get k) w).1 = .ok (some raw)) :
    ∃ e, w.redis k = some e ∧ (e.val = .str raw ∨ ∃ n, e.val = .int n ∧ raw = .text (intText n)) := by
  have hget : (Redis.get (w.now E) k (w.cache E)).1 = .ok (some raw) := by
    rcases Redis.faulty_cases (E.fault w.ticks) (Redis.get (w.now E) k) (w.cache E) with hf | ⟨cls, hf, -⟩
    · rw [← hf]; exact h
    · rw [show (exec E i (.get k) w).1 = _ from hf] at h
      cases h
  obtain ⟨e, hl, hv⟩ := Redis.get_ok hget
  exact ⟨e, cache_some (Redis.live_some hl), hv⟩

omit [Platform] in
/-- A statement fails and changes nothing, or it is executed. -/
theorem dbOp_cases {α : Type} (stmt : Db → Except Exc α × Db) :
    (∃ e, w.dbOp E stmt = (.error e, w.cache E, w.db)) ∨
      w.dbOp E stmt = ((stmt w.db).1, w.cache E, (stmt w.db).2) := by
  unfold dbOp
  split
  · exact .inl ⟨_, rfl⟩
  · exact .inr rfl

omit [Platform] in
/-- A connection that does not fail. -/
theorem dbOp_none {α : Type} (hf : E.dbFault w.ticks = none) (stmt : Db → Except Exc α × Db) :
    w.dbOp E stmt = ((stmt w.db).1, w.cache E, (stmt w.db).2) := by
  rw [dbOp, hf]

omit [Platform] in
/-- A statement that fails was refused, or met with a failure of the connection. -/
theorem dbOp_error {α : Type} {stmt : Db → Except Exc α × Db} {e : Exc} (h : (w.dbOp E stmt).1 = .error e) :
    (∃ cls, E.dbFault w.ticks = some cls) ∨ (stmt w.db).1 = .error e := by
  unfold dbOp at h
  split at h
  · exact .inl ⟨_, ‹_›⟩
  · exact .inr h

theorem select_cases (q : Query) :
    (exec E i (.select q) w).2.db = w.db ∧ ((∃ e, (exec E i (.select q) w).1 = .error e) ∨
      q.fits (w.db.view i) = true ∧ (exec E i (.select q) w).1 = .ok (q.eval (w.db.view i))) := by
  show (w.dbOp E (selectStmt i q)).2.2 = w.db ∧ ((∃ e, (w.dbOp E (selectStmt i q)).1 = .error e) ∨
    q.fits (w.db.view i) = true ∧ (w.dbOp E (selectStmt i q)).1 = .ok (q.eval (w.db.view i)))
  rcases dbOp_cases (E := E) (w := w) (selectStmt i q) with ⟨e, h⟩ | h
  · rw [h]
    exact ⟨rfl, .inl ⟨e, rfl⟩⟩
  · rw [h, selectStmt]
    split
    · exact ⟨rfl, .inr ⟨‹_›, rfl⟩⟩
    · exact ⟨rfl, .inl ⟨_, rfl⟩⟩

/-- A `SELECT` on a connection that does not fail. -/
theorem select_answer (hf : E.dbFault w.ticks = none) (q : Query) :
    (exec E i (.select q) w).1 = if q.fits (w.db.view i) then .ok (q.eval (w.db.view i)) else .error refused := by
  refine (congrArg Prod.fst (dbOp_none hf (selectStmt i q))).trans ?_
  rw [selectStmt]
  split <;> rfl

/-- A row is found and locked, or nothing changes. -/
theorem selectForUpdate_cases (id : Uuid) :
    ((exec E i (.selectForUpdate id) w).2.db = w.db ∧ ((exec E i (.selectForUpdate id) w).1 = .ok none ∨
        ∃ e, (exec E i (.selectForUpdate id) w).1 = .error e)) ∨
      ∃ row, (w.db.view i).find id = some row ∧ (exec E i (.selectForUpdate id) w).1 = .ok (some row) ∧
        (exec E i (.selectForUpdate id) w).2.db = { w.db with locks := w.db.lock i id } := by
  show ((w.dbOp E (selectForUpdateStmt i id)).2.2 = w.db ∧ ((w.dbOp E (selectForUpdateStmt i id)).1 = .ok none ∨
      ∃ e, (w.dbOp E (selectForUpdateStmt i id)).1 = .error e)) ∨
    ∃ row, (w.db.view i).find id = some row ∧ (w.dbOp E (selectForUpdateStmt i id)).1 = .ok (some row) ∧
      (w.dbOp E (selectForUpdateStmt i id)).2.2 = { w.db with locks := w.db.lock i id }
  rcases dbOp_cases (E := E) (w := w) (selectForUpdateStmt i id) with ⟨e, h⟩ | h
  · rw [h]
    exact .inl ⟨rfl, .inr ⟨e, rfl⟩⟩
  · rw [h, selectForUpdateStmt]
    split
    · exact .inl ⟨rfl, .inl rfl⟩
    · rename_i row hrow
      exact .inr ⟨row, hrow, rfl, rfl⟩

/-- A draft becomes a new row, or nothing changes. -/
theorem insert_cases (d : Draft) :
    ((exec E i (.insert d) w).2.db = w.db ∧ ∃ e, (exec E i (.insert d) w).1 = .error e) ∨
      ∃ row, row.id = d.id ∧ row.status = d.status ∧ row.id ∉ (w.db.view i).ids ∧ (exec E i (.insert d) w).1 = .ok row ∧
        (exec E i (.insert d) w).2.db = w.db.write i (.insert row) row.id := by
  show ((w.dbOp E (insertStmt i _ _ d)).2.2 = w.db ∧ ∃ e, (w.dbOp E (insertStmt i _ _ d)).1 = .error e) ∨
    ∃ row, row.id = d.id ∧ row.status = d.status ∧ row.id ∉ (w.db.view i).ids ∧ (w.dbOp E (insertStmt i _ _ d)).1 = .ok row ∧
      (w.dbOp E (insertStmt i _ _ d)).2.2 = w.db.write i (.insert row) row.id
  rcases dbOp_cases (E := E) (w := w) (insertStmt i (E.utc w.ticks 0) (E.utc w.ticks 1) d) with ⟨e, h⟩ | h
  · rw [h]
    exact .inl ⟨rfl, e, rfl⟩
  · rw [h, insertStmt]
    split
    · exact .inl ⟨rfl, _, rfl⟩
    · rename_i row hrow
      obtain ⟨by_, -, rfl⟩ := Option.map_eq_some_iff.mp hrow
      split
      · split
        · exact .inl ⟨rfl, _, rfl⟩
        · rename_i hnew
          exact .inr ⟨_, rfl, rfl, hnew, rfl, rfl⟩
      · exact .inl ⟨rfl, _, rfl⟩

theorem updateStatus_cases (id : Uuid) (s : Status) :
    ((exec E i (.updateStatus id s) w).2.db = w.db ∧ ∃ e, (exec E i (.updateStatus id s) w).1 = .error e) ∨
      ∃ at_, (exec E i (.updateStatus id s) w).1 = .ok at_ ∧
        (exec E i (.updateStatus id s) w).2.db = w.db.write i (.setStatus id s at_) id := by
  rcases dbOp_cases (E := E) (w := w) (fun db => (.ok (E.utc w.ticks 0), db.write i (.setStatus id s (E.utc w.ticks 0)) id))
    with ⟨e, h⟩ | h
  · exact .inl ⟨congrArg (fun x => x.2.2) h, e, congrArg Prod.fst h⟩
  · exact .inr ⟨_, congrArg Prod.fst h, congrArg (fun x => x.2.2) h⟩

/-- A row is new, or nothing changes. -/
theorem insertRow_cases (c : Complaint) :
    ((exec E i (.insertRow c) w).2.db = w.db ∧ ∃ e, (exec E i (.insertRow c) w).1 = .error e) ∨
      c.id ∉ (w.db.view i).ids ∧ (exec E i (.insertRow c) w).1 = .ok () ∧
        (exec E i (.insertRow c) w).2.db = w.db.write i (.insert c) c.id := by
  show ((w.dbOp E (insertRowStmt i c)).2.2 = w.db ∧ ∃ e, (w.dbOp E (insertRowStmt i c)).1 = .error e) ∨
    c.id ∉ (w.db.view i).ids ∧ (w.dbOp E (insertRowStmt i c)).1 = .ok () ∧
      (w.dbOp E (insertRowStmt i c)).2.2 = w.db.write i (.insert c) c.id
  rcases dbOp_cases (E := E) (w := w) (insertRowStmt i c) with ⟨e, h⟩ | h
  · rw [h]
    exact .inl ⟨rfl, e, rfl⟩
  · rw [h, insertRowStmt]
    split
    · split
      · exact .inl ⟨rfl, _, rfl⟩
      · exact .inr ⟨‹_›, rfl, rfl⟩
    · exact .inl ⟨rfl, _, rfl⟩

theorem advisoryLock_cases (key : Int) :
    ((exec E i (.advisoryLock key) w).2.db = w.db ∧ ∃ e, (exec E i (.advisoryLock key) w).1 = .error e) ∨
      (exec E i (.advisoryLock key) w).1 = .ok () ∧
        (exec E i (.advisoryLock key) w).2.db = { w.db with advisory := Function.update w.db.advisory key (some i) } := by
  rcases dbOp_cases (E := E) (w := w) (fun db => (.ok (), { db with advisory := Function.update db.advisory key (some i) }))
    with ⟨e, h⟩ | h
  · exact .inl ⟨congrArg (fun x => x.2.2) h, e, congrArg Prod.fst h⟩
  · exact .inr ⟨congrArg Prod.fst h, congrArg (fun x => x.2.2) h⟩

theorem commit_cases :
    ((exec E i .commit w).2.db = w.db ∧ ∃ e, (exec E i .commit w).1 = .error e) ∨
      (exec E i .commit w).1 = .ok () ∧ (exec E i .commit w).2.db = w.db.commit i := by
  rcases dbOp_cases (E := E) (w := w) (fun db => (.ok (), db.commit i)) with ⟨e, h⟩ | h
  · exact .inl ⟨congrArg (fun x => x.2.2) h, e, congrArg Prod.fst h⟩
  · exact .inr ⟨congrArg Prod.fst h, congrArg (fun x => x.2.2) h⟩

end World

/-- What an operation can do to the database. -/
inductive Db.Step (i : Nat) (db : Db) : Op → Db → Prop
  | same (o : Op) : Step i db o db
  | lock (id : Uuid) : id ∈ (db.view i).ids → Step i db (.selectForUpdate id) { db with locks := db.lock i id }
  | insert (d : Draft) (c : Complaint) : c.id = d.id → c.id ∉ (db.view i).ids → Step i db (.insert d) (db.write i (.insert c) c.id)
  | updateStatus (id : Uuid) (s : Status) (at_ : Int) : Step i db (.updateStatus id s) (db.write i (.setStatus id s at_) id)
  | insertRow (c : Complaint) : c.id ∉ (db.view i).ids → Step i db (.insertRow c) (db.write i (.insert c) c.id)
  | advisoryLock (key : Int) : Step i db (.advisoryLock key) { db with advisory := Function.update db.advisory key (some i) }
  | commit : Step i db .commit (db.commit i)
  | rollback : Step i db .rollback (db.finish i)
  | close : Step i db .close (db.finish i)

namespace World

variable [Platform] {E : Env} {i : Nat} {w : World}

theorem exec_db (o : Op) : Db.Step i w.db o (exec E i o w).2.db := by
  cases o with
  | select q =>
    rw [(select_cases q).1]
    exact .same _
  | selectForUpdate id =>
    rcases selectForUpdate_cases (E := E) (i := i) (w := w) id with ⟨h, -⟩ | ⟨row, hrow, -, h⟩
    · rw [h]
      exact .same _
    · rw [h]
      exact .lock id (Table.find_isSome.mp (by rw [hrow]; rfl))
  | insert d =>
    rcases insert_cases (E := E) (i := i) (w := w) d with ⟨h, -⟩ | ⟨row, hid, -, hnew, -, h⟩
    · rw [h]
      exact .same _
    · rw [h]
      exact .insert d row hid hnew
  | updateStatus id s =>
    rcases updateStatus_cases (E := E) (i := i) (w := w) id s with ⟨h, -⟩ | ⟨at_, -, h⟩
    · rw [h]
      exact .same _
    · rw [h]
      exact .updateStatus id s at_
  | insertRow c =>
    rcases insertRow_cases (E := E) (i := i) (w := w) c with ⟨h, -⟩ | ⟨hnew, -, h⟩
    · rw [h]
      exact .same _
    · rw [h]
      exact .insertRow c hnew
  | advisoryLock key =>
    rcases advisoryLock_cases (E := E) (i := i) (w := w) key with ⟨h, -⟩ | ⟨-, h⟩
    · rw [h]
      exact .same _
    · rw [h]
      exact .advisoryLock key
  | commit =>
    rcases commit_cases (E := E) (i := i) (w := w) with ⟨h, -⟩ | ⟨-, h⟩
    · rw [h]
      exact .same _
    · rw [h]
      exact .commit
  | rollback => exact .rollback
  | close => exact .close
  | triage role p text location => cases p <;> exact .same _
  | _ => exact .same _

/-- Commits are only added. -/
theorem exec_commits (o : Op) :
    (exec E i o w).2.db.commits = w.db.commits ∨ ∃ k, (exec E i o w).2.db.commits = k :: w.db.commits := by
  have h := exec_db (E := E) (i := i) (w := w) o
  generalize (exec E i o w).2.db = db' at h ⊢
  cases h with
  | commit =>
    rw [Db.commit]
    split
    · exact .inl rfl
    · exact .inr ⟨_, rfl⟩
  | _ => exact .inl rfl

/-- The rules answer on the spot. -/
theorem exec_rules (role : Role) (text location : Str) :
    (exec E i (.triage role .rules text location) w).1 = (Rules.triage text location).map some := by
  rw [exec, effect]

theorem trace_exec (o : Op) : (exec E i o w).2.trace i = ⟨o, (exec E i o w).1⟩ :: w.trace i := by
  simp only [trace, exec, List.filterMap_cons, if_true]

theorem trace_exec_ne {j : Nat} (h : j ≠ i) (o : Op) : (exec E i o w).2.trace j = w.trace j := by
  simp only [trace, exec, List.filterMap_cons, if_neg h.symm]

theorem mem_log_exec {o : Op} {ev : Event} (h : ev ∈ w.log) : ev ∈ (exec E i o w).2.log := List.mem_cons_of_mem _ h

omit [Platform] in
theorem mem_trace {d : Σ o : Op, o.Ans} : d ∈ w.trace i ↔ (⟨i, d.1, d.2⟩ : Event) ∈ w.log := by
  simp only [trace, List.mem_filterMap]
  constructor
  · intro h
    obtain ⟨ev, hev, hd⟩ := h
    split at hd
    · rename_i ht
      cases hd
      subst ht
      exact hev
    · cases hd
  · intro h
    exact ⟨_, h, by simp⟩

end World

/-! ## Nothing in the way -/

/-- No time passes, nothing fails and nothing is evicted. -/
def Env.calm (reply : Str → Str → Str → Except Exc (Option TriageResult)) : Env where
  delay _ := 0
  delay_nonneg _ := le_refl 0
  utc _ _ := 0
  uuid n := n
  fault _ := none
  evict _ := []
  dbFault _ := none
  reply _ := reply

/-- An empty Redis and these committed rows. -/
def World.initial (t : Table) : World := ⟨0, 0, fun _ => none, ⟨t, [], fun _ => [], fun _ => none, fun _ => none⟩, []⟩

abbrev machine [Platform] (E : Env) : Machine sig := ⟨World, World.enabled, World.exec E⟩

end CivicPulse
