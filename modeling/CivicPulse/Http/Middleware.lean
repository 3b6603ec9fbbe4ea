/-
  CivicPulse.Http.Middleware — the middleware that names every request (`app/middleware.py`).

  The middleware wraps any ASGI application: the messages that it sends pass through the
  middleware, and what it logs carries the id that the middleware has put in the context
  variable. Everything else the application does is on a machine of its own. Requests
  interleave.
  - `place_exec`: an operation behind the middleware is one of the application's, or none.
  - `requestContext_refines`: in every run the applications come to the same state, and send
    the same messages but for one header.
  - `request_accounted`: what a request that is over has left in the metrics and on stdout.
-/

import Mathlib.Data.List.Forall2
import CivicPulse.Http.Logging
import CivicPulse.Lang.Simulation
import CivicPulse.Lang.Tally

namespace CivicPulse

open Text Lang

open Function (update update_self update_of_ne)

/-! ## `RequestContextMiddleware` -/

namespace Asgi

structure Scope where
  http : Bool
  headers : List (Str × Str)
  method : Str
  path : Str
  /-- The template of the route, as the router leaves it. -/
  route : Option Str

inductive Message where
  | start (status : Nat) (headers : Option (List (Str × Str)))
  | other (kind : Str)
  deriving DecidableEq

/-- A character of `[A-Za-z0-9._-]`. -/
def safeChar (c : Char) : Bool := c.isAlphanum || c == '.' || c == '_' || c == '-'

/-- `_SAFE_ID.match`: `$` also stands before a line break at the end. -/
def SAFE_ID (s : Str) : Bool :=
  let w := if s.getLast? = some '\n' then s.dropLast else s
  1 ≤ w.length && w.length ≤ 64 && w.all safeChar

/-- `uuid.hex`. -/
def hex (id : Uuid) : Str := (List.range 32).reverse.map fun k => Nat.digitChar (id / 16 ^ k % 16)

/-- `dict(scope["headers"]).get(b"x-request-id", b"")`. -/
def Scope.incoming (s : Scope) : Str := ((Dict.ofList s.headers).get "x-request-id".toList).getD []

/-- `_route_template`. -/
def Scope.template (s : Scope) : Str :=
  match s.route with
  | some path => if path.isEmpty then "unmatched".toList else path
  | none => "unmatched".toList

/-- What an application does: send a message, log a record, or anything else. -/
inductive AppOp (S : Sig) where
  | inner (o : S.Op)
  | send (m : Message)
  | log (r : LogRecord)

@[reducible] def AppOp.Ans {S : Sig} : AppOp S → Type
  | inner o => S.Ans o
  | send _ => Except S.Exc Unit
  | log _ => Unit

abbrev appSig (S : Sig) : Sig := ⟨AppOp S, AppOp.Ans, S.Exc⟩

/-- What the middleware does besides. -/
inductive AsgiOp (S : Sig) where
  | app (o : AppOp S)
  | setId (id : Str)
  | resetId
  | perfCounter
  | uuid4
  /-- `HTTP_REQUESTS` and `HTTP_LATENCY`. -/
  | measure (method path : Str) (status : Nat) (elapsed : ℚ)

@[reducible] def AsgiOp.Ans {S : Sig} : AsgiOp S → Type
  | app o => o.Ans
  | setId _ => Unit
  | resetId => Unit
  | perfCounter => ℚ
  | uuid4 => Uuid
  | measure _ _ _ _ => Unit

abbrev asgiSig (S : Sig) : Sig := ⟨AsgiOp S, AsgiOp.Ans, S.Exc⟩

abbrev Application (S : Sig) := Prog (appSig S) Unit

abbrev Wrapped (S : Sig) := Prog (asgiSig S) Unit

/-- `message["headers"].append(...)` on a response's first message. -/
def Message.stamp (id : Str) : Message → Message
  | start status headers => start status (some (headers.getD [] ++ [("x-request-id".toList, id)]))
  | other kind => other kind

def Message.starts : Message → Bool
  | start _ _ => true
  | other _ => false

/-- The status that has been sent once the message is. -/
def Message.status (status : Nat) : Message → Nat
  | start status _ => status
  | other _ => status

section

variable {S : Sig}

/-- The end of a program. -/
def finish (T : Sig) : Except T.Exc Unit → Prog T Unit
  | .ok a => .ret a
  | .error e => .raise e

/-- The application with `send_wrapper`: how it ends, and the status that it has sent. -/
def sending (id : Str) (status : Nat) : Application S → Prog (asgiSig S) (Except S.Exc Unit × Nat)
  | .ret a => .ret (.ok a, status)
  | .raise e => .ret (.error e, status)
  | .op (.send m) k => .op (.app (.send (m.stamp id))) fun r => sending id (m.status status) (k r)
  | .op (.log r) k => .op (.app (.log r)) fun u => sending id status (k u)
  | .op (.inner o) k => .op (.app (.inner o)) fun r => sending id status (k r)

/-- The application as it is. -/
def unwrapped : Application S → Wrapped S
  | .ret a => .ret a
  | .raise e => .raise e
  | .op o k => .op (.app o) fun r => unwrapped (k r)

/-- `log.info("request", extra=…)`. -/
def accessRecord (scope : Scope) (status : Nat) (elapsed : ℚ) : LogRecord where
  levelname := "INFO".toList
  name := "civicpulse.access".toList
  message := "request".toList
  extra := Dict.ofList [("method".toList, text scope.method), ("path".toList, text scope.path), ("status".toList, .int status),
    ("duration_ms".toList, .float (round1 (elapsed * 1000)))]
  exc := none

/-- The routes without an access line. -/
def SILENT : List Str := ["/health".toList, "/ready".toList, "/metrics".toList]

/-- The way out of `finally`. -/
def leave (result : Except S.Exc Unit) : Wrapped S := .op .resetId fun _ => finish (asgiSig S) result

def logAccess (scope : Scope) (status : Nat) (elapsed : ℚ) (result : Except S.Exc Unit) : Wrapped S :=
  if SILENT.contains scope.template then leave result
  else .op (.app (.log (accessRecord scope status elapsed))) fun _ => leave result

/-- `finally`. -/
def conclude (scope : Scope) (started : ℚ) (result : Except S.Exc Unit) (status : Nat) : Wrapped S :=
  .op .perfCounter fun (now : ℚ) => .op (.measure scope.method scope.template status (now - started)) fun _ =>
    logAccess scope status (now - started) result

/-- The request under its id. -/
def identified (scope : Scope) (app : Application S) (requestId : Str) : Wrapped S :=
  .op (.setId requestId) fun _ => .op .perfCounter fun (started : ℚ) => do
    let ended ← sending requestId 500 app
    conclude scope started ended.1 ended.2

/-- `RequestContextMiddleware.__call__`. -/
def requestContext (scope : Scope) (app : Application S) : Wrapped S :=
  if scope.http then
    if SAFE_ID scope.incoming then identified scope app scope.incoming
    else .op .uuid4 fun (id : Uuid) => identified scope app (hex id)
  else unwrapped app

end

/-! ## The process -/

/-- What can be seen of what a thread does. -/
inductive Effect where
  | named (id : Str)
  | sent (m : Message)
  | wrote (r : LogRecord) (created : Int) (id : Str)
  | measured (method path : Str) (status : Nat) (elapsed : ℚ)

/-- What the program does not decide; the `n`-th operation reads entry `n`, the `n`-th message
    is delivered, or not, as entry `n` has it. -/
structure Host (S : Sig) where
  perf : Nat → ℚ
  uuid : Nat → Uuid
  created : Nat → Int
  delivers : Nat → Except S.Exc Unit

structure Process (σ : Type) where
  inner : σ
  ticks : Nat
  sends : Nat
  /-- `request_id_var`, in each thread's context. -/
  ids : Nat → Str
  /-- Oldest first. -/
  effects : List (Nat × Effect)

/-- The variable's default. -/
def unnamed : Str := "n/a".toList

namespace Process

variable {S : Sig} {σ : Type}

def initial (s : σ) : Process σ := ⟨s, 0, 0, fun _ => unnamed, []⟩

/-- Thread `i` has done `d`. -/
def did (i : Nat) (d : Effect) (w : Process σ) : Process σ := { w with ticks := w.ticks + 1, effects := w.effects ++ [(i, d)] }

def effectsOf (i : Nat) (w : Process σ) : List Effect := tally i w.effects

end Process

section

variable {S : Sig} (M : Machine S) (H : Host S) (i : Nat)

def execApp (w : Process M.State) : (o : AppOp S) → o.Ans × Process M.State
  | .inner o => ((M.exec i o w.inner).1, { w with inner := (M.exec i o w.inner).2, ticks := w.ticks + 1 })
  | .send m => (H.delivers w.sends, { w.did i (.sent m) with sends := w.sends + 1 })
  | .log r => ((), w.did i (.wrote r (H.created w.ticks) (w.ids i)))

def enabledApp (w : Process M.State) : AppOp S → Bool
  | .inner o => M.enabled i o w.inner
  | _ => true

def execAsgi (w : Process M.State) : (o : AsgiOp S) → o.Ans × Process M.State
  | .app o => execApp M H i w o
  | .setId id => ((), { w.did i (.named id) with ids := update w.ids i id })
  | .resetId => ((), { w with ticks := w.ticks + 1, ids := update w.ids i unnamed })
  | .perfCounter => (H.perf w.ticks, { w with ticks := w.ticks + 1 })
  | .uuid4 => (H.uuid w.ticks, { w with ticks := w.ticks + 1 })
  | .measure method path status elapsed => ((), w.did i (.measured method path status elapsed))

/-- Applications on their own. -/
def bare : Machine (appSig S) where
  State := Process M.State
  enabled i o w := enabledApp M i w o
  exec i o w := execApp M H i w o

/-- Applications behind the middleware. -/
def wrapped : Machine (asgiSig S) where
  State := Process M.State
  enabled i o w := match o with
    | .app o => enabledApp M i w o
    | _ => true
  exec i o w := execAsgi M H i w o

end

/-! ## Where a request is -/

/-- The id that a request is given. -/
def Given (scope : Scope) (id : Str) : Prop := if SAFE_ID scope.incoming then id = scope.incoming else ∃ u, id = hex u

/-- What becomes of an application's effect behind the middleware. -/
inductive Echo (id : Str) : Effect → Effect → Prop
  | sent (m : Message) : Echo id (.sent m) (.sent (m.stamp id))
  | wrote (r : LogRecord) (t t' : Int) (id' : Str) : Echo id (.wrote r t id') (.wrote r t' id)

/-- What becomes of it where there is no request. -/
inductive Same : Effect → Effect → Prop
  | sent (m : Message) : Same (.sent m) (.sent m)
  | wrote (r : LogRecord) (t t' : Int) (id : Str) : Same (.wrote r t id) (.wrote r t' unnamed)

def Effect.status (status : Nat) : Effect → Nat
  | sent m => m.status status
  | _ => status

/-- The last status that was sent, or 500. -/
def statusOf (es : List Effect) : Nat := es.foldl Effect.status 500

/-- What is left once the application has ended that has done `es`. -/
def Accounted (scope : Scope) (id : Str) (es left : List Effect) : Prop :=
  ∃ elapsed created, left = .measured scope.method scope.template (statusOf es) elapsed ::
    if SILENT.contains scope.template then [] else [.wrote (accessRecord scope (statusOf es) elapsed) created id]

section

variable {S : Sig}

/-- A request of that id is being served; its application has done `bs` by itself, which has
    become `es`. -/
structure Served (scope : Scope) (id : Str) (bs es : List Effect) : Prop where
  http : scope.http = true
  given : Given scope id
  echo : List.Forall₂ (Echo id) bs es

/-- Where a request is: what it has done and the context variable, what its application has
    done by itself, what is left of the whole, and of the application. -/
inductive Place (scope : Scope) : List Effect × Str → List Effect → Wrapped S → Application S → Prop
  | plain {es bs} {p : Application S} {q : Wrapped S} : scope.http = false → List.Forall₂ Same bs es → q = unwrapped p →
      Place scope (es, unnamed) bs q p
  | arrived {p : Application S} {q : Wrapped S} : scope.http = true → SAFE_ID scope.incoming = false →
      q = .op .uuid4 (fun (u : Uuid) => identified scope p (hex u)) → Place scope ([], unnamed) [] q p
  | identified {id} {p : Application S} {q : Wrapped S} : Served scope id [] [] → q = identified scope p id →
      Place scope ([], unnamed) [] q p
  | named {id} {p : Application S} {q : Wrapped S} : Served scope id [] [] →
      q = .op .perfCounter (fun (t : ℚ) => sending id 500 p >>= fun x => conclude scope t x.1 x.2) →
      Place scope ([.named id], id) [] q p
  | serving {id started es bs} {p : Application S} {q : Wrapped S} : Served scope id bs es →
      q = (sending id (statusOf es) p >>= fun x => conclude scope started x.1 x.2) → Place scope (.named id :: es, id) bs q p
  | measuring {id elapsed es bs r} {q : Wrapped S} : Served scope id bs es →
      q = .op (.measure scope.method scope.template (statusOf es) elapsed) (fun _ => logAccess scope (statusOf es) elapsed r) →
      Place scope (.named id :: es, id) bs q (finish (appSig S) r)
  | logging {id elapsed es bs r} {q : Wrapped S} : Served scope id bs es → SILENT.contains scope.template = false →
      q = .op (.app (.log (accessRecord scope (statusOf es) elapsed))) (fun _ => leave r) →
      Place scope (.named id :: (es ++ [.measured scope.method scope.template (statusOf es) elapsed]), id) bs q (finish (appSig S) r)
  | leaving {id es bs left r} {q : Wrapped S} : Served scope id bs es → Accounted scope id es left → q = leave r →
      Place scope (.named id :: (es ++ left), id) bs q (finish (appSig S) r)
  | ended {id es bs left r} {q : Wrapped S} : Served scope id bs es → Accounted scope id es left → q = finish (asgiSig S) r →
      Place scope (.named id :: (es ++ left), unnamed) bs q (finish (appSig S) r)

/-! ## What an operation does to a thread -/

/-- What is to be seen of a thread. -/
def seen {σ : Type} (i : Nat) (w : Process σ) : List Effect × Str := (w.effectsOf i, w.ids i)

theorem effectsOf_did {σ : Type} (i : Nat) (e : Effect) (w : Process σ) : (w.did i e).effectsOf i = w.effectsOf i ++ [e] := by
  simp [Process.effectsOf, Process.did, tally]

theorem effectsOf_other {σ : Type} {i j : Nat} (h : j ≠ i) (e : Effect) (w : Process σ) : (w.did i e).effectsOf j = w.effectsOf j := by
  simp [Process.effectsOf, Process.did, tally, Ne.symm h]

theorem seen_did {σ : Type} (i : Nat) (e : Effect) (w : Process σ) : seen i (w.did i e) = ((seen i w).1 ++ [e], (seen i w).2) :=
  Prod.ext (effectsOf_did i e w) rfl

theorem seen_other {σ : Type} {i j : Nat} (h : j ≠ i) (e : Effect) (w : Process σ) : seen j (w.did i e) = seen j w :=
  Prod.ext (effectsOf_other h e w) rfl

variable {M : Machine S} {H : Host S}

theorem seen_execApp {i j : Nat} (o : AppOp S) (w : Process M.State) (h : j ≠ i) : seen j (execApp M H i w o).2 = seen j w := by
  cases o with
  | inner o => rfl
  | send m => exact seen_other h _ w
  | log r => exact seen_other h _ w

theorem seen_execAsgi {i j : Nat} (o : AsgiOp S) (w : Process M.State) (h : j ≠ i) : seen j (execAsgi M H i w o).2 = seen j w := by
  cases o with
  | app o => exact seen_execApp o w h
  | setId id => exact Prod.ext (effectsOf_other h _ w) (update_of_ne h _ _)
  | resetId => exact Prod.ext rfl (update_of_ne h _ _)
  | perfCounter => rfl
  | uuid4 => rfl
  | measure method path status elapsed => exact seen_other h _ w

theorem seen_setId {i : Nat} (id : Str) (w : Process M.State) :
    seen i (execAsgi M H i w (.setId id)).2 = ((seen i w).1 ++ [.named id], id) :=
  Prod.ext (effectsOf_did i _ w) (update_self ..)

theorem seen_resetId {i : Nat} (w : Process M.State) : seen i (execAsgi M H i w .resetId).2 = ((seen i w).1, unnamed) :=
  Prod.ext rfl (update_self ..)

theorem statusOf_snoc (es : List Effect) (e : Effect) : statusOf (es ++ [e]) = e.status (statusOf es) := by
  rw [statusOf, List.foldl_append]
  rfl

theorem place_logAccess {scope : Scope} {id : Str} {es bs : List Effect} (h : Served scope id bs es) (elapsed : ℚ)
    (r : Except S.Exc Unit) :
    Place scope (.named id :: (es ++ [.measured scope.method scope.template (statusOf es) elapsed]), id) bs
      (logAccess scope (statusOf es) elapsed r) (finish (appSig S) r) := by
  unfold logAccess
  cases hsilent : SILENT.contains scope.template with
  | true =>
    have hacc : Accounted scope id es [.measured scope.method scope.template (statusOf es) elapsed] :=
      ⟨elapsed, 0, by rw [hsilent]; rfl⟩
    exact .leaving h hacc rfl
  | false => exact .logging h hsilent rfl

theorem place_requestContext (scope : Scope) (app : Application S) :
    Place scope ([], unnamed) [] (requestContext scope app) app := by
  unfold requestContext
  cases hhttp : scope.http with
  | false => exact .plain hhttp .nil rfl
  | true =>
    cases hsafe : SAFE_ID scope.incoming with
    | false => exact .arrived hhttp hsafe rfl
    | true => exact .identified ⟨hhttp, by rw [Given, if_pos hsafe], .nil⟩ rfl

/-- The processes are where their applications are. -/
def Beside {σ : Type} (w b : Process σ) : Prop := w.inner = b.inner ∧ w.sends = b.sends

section

variable {i : Nat} {w b : Process M.State} {scope : Scope}

/-- What an operation of the whole is matched by. -/
def Matched (M : Machine S) (H : Host S) (i : Nat) (scope : Scope) (w b : Process M.State) (o' : AsgiOp S) (k' : o'.Ans → Wrapped S)
    (p : Application S) : Prop :=
  (Beside (execAsgi M H i w o').2 b ∧ Place scope (seen i (execAsgi M H i w o').2) (seen i b).1 (k' (execAsgi M H i w o').1) p) ∨
  ∃ o k, p = .op o k ∧ enabledApp M i b o = true ∧ Beside (execAsgi M H i w o').2 (execApp M H i b o).2 ∧
    Place scope (seen i (execAsgi M H i w o').2) (seen i (execApp M H i b o).2).1 (k' (execAsgi M H i w o').1) (k (execApp M H i b o).1)

theorem matched_plain {o : AppOp S} {k : o.Ans → Application S} (hw : Beside w b) (hhttp : scope.http = false)
    (hes : List.Forall₂ Same (b.effectsOf i) (w.effectsOf i)) (hid : w.ids i = unnamed) (hen : enabledApp M i w o = true) :
    Matched M H i scope w b (.app o) (fun r => unwrapped (k r)) (.op o k) := by
  obtain ⟨hinner, hsends⟩ := hw
  refine .inr ⟨o, k, rfl, ?_, ?_, ?_⟩
  · cases o with
    | inner o =>
      show M.enabled i o b.inner = true
      rw [← hinner]
      exact hen
    | send m => rfl
    | log r => rfl
  · cases o with
    | inner o => exact ⟨congrArg (fun s => (M.exec i o s).2) hinner, hsends⟩
    | send m => exact ⟨hinner, congrArg (· + 1) hsends⟩
    | log r => exact ⟨hinner, hsends⟩
  · cases o with
    | inner o =>
      show Place scope (seen i w) (seen i b).1 (unwrapped (k (M.exec i o w.inner).1)) (k (M.exec i o b.inner).1)
      rw [hinner, seen, hid]
      exact .plain hhttp hes rfl
    | send m =>
      show Place scope (seen i (w.did i (.sent m))) (seen i (b.did i (.sent m))).1 (unwrapped (k (H.delivers w.sends))) (k (H.delivers b.sends))
      rw [hsends, seen_did, seen_did, seen, hid]
      exact .plain hhttp (List.rel_append hes (.cons (.sent m) .nil)) rfl
    | log r =>
      show Place scope (seen i (w.did i _)) (seen i (b.did i _)).1 (unwrapped (k ())) (k ())
      rw [seen_did, seen_did, seen, hid]
      exact .plain hhttp (List.rel_append hes (.cons (.wrote r _ _ _) .nil)) rfl

/-- The application is at work. -/
theorem matched_serving {id : Str} {started : ℚ} {es bs : List Effect} {o : AppOp S} {k : o.Ans → Application S} {o' : AsgiOp S}
    {k' : o'.Ans → Wrapped S} (hw : Beside w b) (h : Served scope id bs es) (hseen : seen i w = (.named id :: es, id))
    (hb : b.effectsOf i = bs) (hen : (wrapped M H).enabled i o' w = true)
    (hq : .op o' k' = (sending id (statusOf es) (.op o k) >>= fun x => conclude scope started x.1 x.2)) :
    Matched M H i scope w b o' k' (.op o k) := by
  obtain ⟨hinner, hsends⟩ := hw
  cases o with
  | inner o =>
    cases hq
    refine .inr ⟨_, _, rfl, ?_, ⟨congrArg (fun s => (M.exec i o s).2) hinner, hsends⟩, ?_⟩
    · show M.enabled i o b.inner = true
      rw [← hinner]
      exact hen
    · show Place scope (seen i w) (b.effectsOf i) (sending id _ (k (M.exec i o w.inner).1) >>= _) (k (M.exec i o b.inner).1)
      rw [hseen, hb, hinner]
      exact .serving h rfl
  | send m =>
    cases hq
    refine .inr ⟨_, _, rfl, rfl, ⟨hinner, congrArg (· + 1) hsends⟩, ?_⟩
    show Place scope (seen i (w.did i (.sent (m.stamp id)))) ((b.did i (.sent m)).effectsOf i)
      (sending id (m.status (statusOf es)) (k (H.delivers w.sends)) >>= _) (k (H.delivers b.sends))
    have hstatus : m.status (statusOf es) = statusOf (es ++ [.sent (m.stamp id)]) := by
      rw [statusOf_snoc]
      cases m <;> rfl
    rw [seen_did, effectsOf_did, hseen, hb, hsends, hstatus]
    exact .serving ⟨h.http, h.given, List.rel_append h.echo (.cons (.sent m) .nil)⟩ rfl
  | log r =>
    cases hq
    refine .inr ⟨_, _, rfl, rfl, ⟨hinner, hsends⟩, ?_⟩
    show Place scope (seen i (w.did i (.wrote r (H.created w.ticks) (w.ids i)))) ((b.did i (.wrote r (H.created b.ticks) (b.ids i))).effectsOf i)
      (sending id (statusOf es) (k ()) >>= _) (k ())
    have hid : w.ids i = id := congrArg Prod.snd hseen
    have hstatus : statusOf es = statusOf (es ++ [.wrote r (H.created w.ticks) id]) := by
      rw [statusOf_snoc]
      rfl
    rw [seen_did, effectsOf_did, hseen, hb, hid, hstatus]
    exact .serving ⟨h.http, h.given, List.rel_append h.echo (.cons (.wrote r _ _ _) .nil)⟩ rfl

theorem place_exec {o' : AsgiOp S} {k' : o'.Ans → Wrapped S} {p : Application S} (hw : Beside w b)
    (h : Place scope (seen i w) (seen i b).1 (.op o' k') p) (hen : (wrapped M H).enabled i o' w = true) :
    Matched M H i scope w b o' k' p := by
  generalize hv : seen i w = v at h
  generalize hb : (seen i b).1 = bs at h
  cases h with
  | plain hhttp hes hq =>
    cases p with
    | ret a => cases hq
    | raise e => cases hq
    | op o k =>
      cases hq
      have hes' : w.effectsOf i = _ := congrArg Prod.fst hv
      exact matched_plain hw hhttp (by rw [hes', show b.effectsOf i = bs from hb]; exact hes) (congrArg Prod.snd hv) hen
  | arrived hhttp hsafe hq =>
    cases hq
    refine .inl ⟨hw, ?_⟩
    show Place scope (seen i w) (seen i b).1 _ p
    rw [hv, hb]
    exact .identified ⟨hhttp, by rw [Given, hsafe]; exact ⟨_, rfl⟩, .nil⟩ rfl
  | identified hserved hq =>
    cases hq
    refine .inl ⟨hw, ?_⟩
    rw [seen_setId, hv, hb]
    exact .named hserved rfl
  | named hserved hq =>
    cases hq
    refine .inl ⟨hw, ?_⟩
    show Place scope (seen i w) (seen i b).1 _ p
    rw [hv, hb]
    exact .serving hserved rfl
  | serving hserved hq =>
    cases p with
    | op o k => exact matched_serving hw hserved hv hb hen hq
    | ret a =>
      cases hq
      refine .inl ⟨hw, ?_⟩
      show Place scope (seen i w) (seen i b).1 _ (finish (appSig S) (.ok a))
      rw [hv, hb]
      exact .measuring hserved rfl
    | raise e =>
      cases hq
      refine .inl ⟨hw, ?_⟩
      show Place scope (seen i w) (seen i b).1 _ (finish (appSig S) (.error e))
      rw [hv, hb]
      exact .measuring hserved rfl
  | measuring hserved hq =>
    cases hq
    refine .inl ⟨hw, ?_⟩
    show Place scope (seen i (w.did i _)) (seen i b).1 _ _
    rw [seen_did, hv, hb]
    exact place_logAccess hserved _ _
  | logging hserved hloud hq =>
    cases hq
    refine .inl ⟨hw, ?_⟩
    show Place scope (seen i (w.did i (.wrote _ (H.created w.ticks) (w.ids i)))) (seen i b).1 _ _
    have hid : w.ids i = _ := congrArg Prod.snd hv
    rw [seen_did, hv, hb, hid, List.cons_append, List.append_assoc]
    exact .leaving hserved ⟨_, H.created w.ticks, by rw [hloud]; rfl⟩ rfl
  | leaving hserved hacc hq =>
    cases hq
    refine .inl ⟨hw, ?_⟩
    rw [seen_resetId, hv, hb]
    exact .ended hserved hacc rfl
  | @ended _ _ _ _ r _ _ _ hq => cases r <;> cases hq

end

/-! ## Runs -/

/-- What can be started: requests, each with its scope and the application's program for it. -/
structure Server (S : Sig) (C : Type) where
  scope : C → Scope
  app : C → Application S

variable {C : Type} (V : Server S C)

/-- Behind the middleware. -/
def Server.behind (c : C) : Wrapped S := requestContext (V.scope c) (V.app c)

/-- An application does behind the middleware what it does on its own. -/
def transparent (M : Machine S) (H : Host S) : Simulation (wrapped M H) (bare M H) V.behind V.app (List Effect × Str) (List Effect) where
  shared := Beside
  seen' := seen
  seen i w := w.effectsOf i
  start' := ([], unnamed)
  start := []
  matched c := Place (V.scope c)
  starts c := place_requestContext (V.scope c) (V.app c)
  frame' o s h := seen_execAsgi o s h
  frame o s h := congrArg Prod.fst (seen_execApp o s h)
  exec hw h hen := place_exec hw h hen

theorem related_of_steps {s : M.State} {P : Pool (wrapped M H) C Unit} (hP : Pool.Steps V.behind (.fresh (Process.initial s)) P) :
    ∃ B : Pool (bare M H) C Unit, Pool.Steps V.app (.fresh (Process.initial s)) B ∧ (transparent V M H).Related P B :=
  Simulation.steps (Simulation.fresh_related (Z := transparent V M H) ⟨rfl, rfl⟩ (fun _ => rfl) fun _ => rfl) hP

def Effect.message : Effect → Option Message
  | sent m => some m
  | _ => none

/-- What a thread has sent. -/
def Process.messages {σ : Type} (w : Process σ) (i : Nat) : List Message := (w.effectsOf i).filterMap Effect.message

/-- What becomes of an application's messages. -/
def Relayed (scope : Scope) (own through : List Message) : Prop :=
  if scope.http then ∃ id, Given scope id ∧ through = own.map (Message.stamp id) else through = own

theorem messages_same {bs es : List Effect} (h : List.Forall₂ Same bs es) :
    es.filterMap Effect.message = bs.filterMap Effect.message := by
  induction h with
  | nil => rfl
  | cons hx _ ih =>
    cases hx with
    | sent m => exact congrArg (m :: ·) ih
    | wrote r t t' id => exact ih

theorem messages_echo {id : Str} {bs es : List Effect} (h : List.Forall₂ (Echo id) bs es) :
    es.filterMap Effect.message = (bs.filterMap Effect.message).map (Message.stamp id) := by
  induction h with
  | nil => rfl
  | cons hx _ ih =>
    cases hx with
    | sent m => exact congrArg (m.stamp id :: ·) ih
    | wrote r t t' id' => exact ih

theorem messages_accounted {scope : Scope} {id : Str} {es left : List Effect} (h : Accounted scope id es left) :
    left.filterMap Effect.message = [] := by
  obtain ⟨elapsed, created, rfl⟩ := h
  split <;> rfl

theorem given_exists (scope : Scope) : ∃ id, Given scope id := by
  unfold Given
  split
  · exact ⟨_, rfl⟩
  · exact ⟨_, 0, rfl⟩

variable {scope : Scope} {es bs : List Effect} {context : Str} {q : Wrapped S} {p : Application S}

/-- What is done after the application's own effects is no message. -/
theorem Served.relayed {id : Str} (h : Served scope id bs es) (left : List Effect) (hleft : left.filterMap Effect.message = []) :
    Relayed scope (bs.filterMap Effect.message) ((Effect.named id :: (es ++ left)).filterMap Effect.message) := by
  unfold Relayed
  rw [if_pos h.http]
  refine ⟨id, h.given, ?_⟩
  rw [List.filterMap_cons_none rfl, List.filterMap_append, messages_echo h.echo, hleft, List.append_nil]

theorem Place.relayed (h : Place scope (es, context) bs q p) : Relayed scope (bs.filterMap Effect.message) (es.filterMap Effect.message) := by
  cases h with
  | plain hhttp hes =>
    unfold Relayed
    rw [if_neg (by simp [hhttp])]
    exact messages_same hes
  | arrived hhttp =>
    obtain ⟨id, hid⟩ := given_exists scope
    unfold Relayed
    rw [if_pos hhttp]
    exact ⟨id, hid, rfl⟩
  | identified h =>
    unfold Relayed
    rw [if_pos h.http]
    exact ⟨_, h.given, rfl⟩
  | named h => exact h.relayed [] rfl
  | serving h =>
    have hrelayed := h.relayed [] rfl
    rwa [List.append_nil] at hrelayed
  | measuring h =>
    have hrelayed := h.relayed [] rfl
    rwa [List.append_nil] at hrelayed
  | logging h => exact h.relayed _ rfl
  | leaving h hacc => exact h.relayed _ (messages_accounted hacc)
  | ended h hacc => exact h.relayed _ (messages_accounted hacc)

theorem sending_not_over {id : Str} {status : Nat} {started : ℚ} {r : Except S.Exc Unit} :
    (sending id status p >>= fun x => conclude scope started x.1 x.2) ≠ finish (asgiSig S) r := by
  intro h
  cases p with
  | ret a => cases r <;> cases h
  | raise e => cases r <;> cases h
  | op o k => cases o <;> cases r <;> cases h

/-- What is over ended as the application did, and has been accounted for. -/
theorem Place.over {r : Except S.Exc Unit} (h : Place scope (es, context) bs (finish (asgiSig S) r) p) :
    p = finish (appSig S) r ∧ (scope.http = true → ∃ id own left, Served scope id bs own ∧ es = .named id :: (own ++ left) ∧
      Accounted scope id own left) := by
  generalize hq : finish (asgiSig S) r = q at h
  cases h with
  | plain hhttp hes h =>
    subst hq
    refine ⟨?_, fun h => by rw [hhttp] at h; cases h⟩
    cases p with
    | op o k => cases r <;> cases h
    | ret a => cases r <;> cases h; rfl
    | raise e => cases r <;> cases h; rfl
  | arrived _ _ h => subst h; cases r <;> cases hq
  | identified _ h => subst h; cases r <;> cases hq
  | named _ h => subst h; cases r <;> cases hq
  | serving _ h => exact absurd (h.symm.trans hq.symm) sending_not_over
  | measuring _ h => subst h; cases r <;> cases hq
  | logging _ _ h => subst h; cases r <;> cases hq
  | leaving _ _ h => subst h; cases r <;> cases hq
  | @ended _ _ _ _ r' _ hserved hacc h =>
    subst h
    refine ⟨?_, fun _ => ⟨_, _, _, hserved, rfl, hacc⟩⟩
    cases r <;> cases r' <;> cases hq <;> rfl

variable {s : M.State} {P : Pool (wrapped M H) C Unit}

/-- Every run behind the middleware is a run of the applications on their own: they come to the
    same state, a request ends as its application does, and what is sent for it is what the
    application has sent, with the request's id in the header. -/
theorem requestContext_refines (hP : Pool.Steps V.behind (.fresh (Process.initial s)) P) :
    ∃ B : Pool (bare M H) C Unit, Pool.Steps V.app (.fresh (Process.initial s)) B ∧ P.shared.inner = B.shared.inner ∧
      ∀ i c q, P.threads i = some ⟨c, q⟩ → ∃ p, B.threads i = some ⟨c, p⟩ ∧
        Relayed (V.scope c) (B.shared.messages i) (P.shared.messages i) ∧
        ∀ r, q = finish (asgiSig S) r → p = finish (appSig S) r := by
  obtain ⟨B, hB, hrel⟩ := related_of_steps V hP
  refine ⟨B, hB, hrel.shared.1, fun i c q ht => ?_⟩
  obtain ⟨p, hp, hplace⟩ := hrel.busy i _ ht
  refine ⟨p, hp, hplace.relayed, fun r hr => ?_⟩
  subst hr
  exact hplace.over.1

/-- An effect of an application that serves a request of that id. -/
def Under (id : Str) : Effect → Prop
  | .sent m => ∃ own : Message, m = own.stamp id
  | .wrote _ _ context => context = id
  | _ => False

/-- What follows for each from its counterpart. -/
theorem forall_of_forall₂ {α β : Type} {R : α → β → Prop} {f : α → Prop} {g : β → Prop} (hR : ∀ {a b}, R a b → f a → g b) {as : List α}
    {bs : List β} (h : List.Forall₂ R as bs) (has : ∀ a ∈ as, f a) : ∀ b ∈ bs, g b := by
  induction h with
  | nil => exact fun b hb => by cases hb
  | cons hx _ ih =>
    exact List.forall_mem_cons.mpr ⟨hR hx (has _ List.mem_cons_self), ih fun a ha => has a (List.mem_cons_of_mem _ ha)⟩

theorem under_echo {id : Str} (h : List.Forall₂ (Echo id) bs es) : ∀ e ∈ es, Under id e := by
  refine forall_of_forall₂ (f := fun _ => True) (fun hx _ => ?_) h fun _ _ => trivial
  cases hx with
  | sent m => exact ⟨m, rfl⟩
  | wrote r t t' id' => rfl

/-- However it ended, a request that is over was given one id, its application sent and logged
    under that id only, and then it was measured once and, unless its route is a silent one, has
    logged one access line, both with the last status that was sent, or 500. -/
theorem request_accounted (hP : Pool.Steps V.behind (.fresh (Process.initial s)) P) {i : Nat} {c : C} {r : Except S.Exc Unit}
    (ht : P.threads i = some ⟨c, finish (asgiSig S) r⟩) (hhttp : (V.scope c).http = true) :
    ∃ id own left, Given (V.scope c) id ∧ P.shared.effectsOf i = .named id :: (own ++ left) ∧ (∀ e ∈ own, Under id e) ∧
      Accounted (V.scope c) id own left := by
  obtain ⟨B, -, hrel⟩ := related_of_steps V hP
  obtain ⟨p, -, hplace⟩ := hrel.busy i _ ht
  have hplace : Place (V.scope c) (P.shared.effectsOf i, P.shared.ids i) (B.shared.effectsOf i) (finish (asgiSig S) r) p := hplace
  obtain ⟨id, own, left, hserved, hes, hacc⟩ := hplace.over.2 hhttp
  exact ⟨id, own, left, hserved.given, hes, under_echo hserved.echo, hacc⟩

end

/-! ## Two visitors -/

/-- No operations of its own. -/
abbrev idle : Sig := ⟨Empty, fun _ => Unit, Unit⟩

def nowhere : Machine idle := ⟨Unit, fun _ _ _ => true, fun _ _ s => ((), s)⟩

/-- Log a line and answer. -/
def greeting : Application idle :=
  .op (.log ⟨"INFO".toList, "app.main".toList, "hello".toList, Dict.empty, none⟩) fun _ => .op (.send (.start 200 none)) fun _ =>
    .op (.send (.other "http.response.body".toList)) fun _ => .ret ()

def visitors : Server idle Unit := ⟨fun _ => ⟨true, [], "GET".toList, "/".toList, some "/".toList⟩, fun _ => greeting⟩

def clockwork : Host idle := ⟨fun n => n, id, fun n => n, fun _ => .ok ()⟩

/-- Two requests, step by step in turn. -/
def visited : Pool (wrapped nowhere clockwork) Unit Unit :=
  Pool.schedule visitors.behind (.start 0 () :: .start 1 () :: (List.replicate 10 [.exec 0, .exec 1]).flatten)
    (.fresh (Process.initial ()))

theorem visited_steps : Pool.Steps visitors.behind (.fresh (Process.initial ())) visited := Pool.schedule_steps _ _ _

theorem visited_over : visited.threads 0 = some ⟨(), .ret ()⟩ := by
  have hresult : visited.result 0 = some () := by decide +kernel
  obtain ⟨c, hc⟩ := Pool.result_some hresult
  exact hc

theorem requestContext_refines_visited : ∃ B : Pool (bare nowhere clockwork) Unit Unit,
    Pool.Steps visitors.app (.fresh (Process.initial ())) B ∧ B.threads 0 = some ⟨(), .ret ()⟩ ∧
      Relayed (visitors.scope ()) (B.shared.messages 0) (visited.shared.messages 0) := by
  obtain ⟨B, hB, -, hthreads⟩ := requestContext_refines visitors visited_steps
  obtain ⟨p, hp, hrelayed, hends⟩ := hthreads 0 () _ visited_over
  obtain rfl : p = .ret () := hends (.ok ()) rfl
  exact ⟨B, hB, hp, hrelayed⟩

theorem request_accounted_visited : ∃ id own left, Given (visitors.scope ()) id ∧
    visited.shared.effectsOf 0 = .named id :: (own ++ left) ∧ (∀ e ∈ own, Under id e) ∧
      Accounted (visitors.scope ()) id own left :=
  request_accounted visitors visited_steps (r := .ok ()) visited_over rfl

end Asgi

end CivicPulse
