/-
  CivicPulse.Http.ServerErrors — the framework's own layer, around every middleware.

  The application that `create_app` builds answers for an exception that comes out of
  everything else (Starlette's `ServerErrorMiddleware`): if no response has started, the client
  is sent a plain 500, which has no request id, and the exception is raised again.
  - `guarded_exec`: an operation behind both layers is one of the application's, or none.
  - `Guarded.told`: what has been sent is what the application has sent, under its id, and then
    the 500, if the application has failed before its response started.
-/

import CivicPulse.Http.Middleware

namespace CivicPulse

open Text Lang

namespace Asgi

/-! ## `ServerErrorMiddleware` -/

def bodyMessage : Message := .other "http.response.body".toList

/-- `PlainTextResponse("Internal Server Error", status_code=500)`. -/
def serverError : Message :=
  .start 500 (some [("content-length".toList, "21".toList), ("content-type".toList, "text/plain; charset=utf-8".toList)])

/-- Go on, unless the client is gone. -/
def unlessGone {T : Sig} (p : Prog T Unit) : Except T.Exc Unit → Prog T Unit
  | .ok _ => p
  | .error e => .raise e

theorem unlessGone_cases {T : Sig} (p : Prog T Unit) (sent : Except T.Exc Unit) : unlessGone p sent = p ∨ ∃ e, unlessGone p sent = .raise e := by
  cases sent with
  | ok u => exact .inl rfl
  | error e => exact .inr ⟨e, rfl⟩

variable {S : Sig}

/-- The operation starts the response, whether it is delivered or not. -/
def AsgiOp.starts : AsgiOp S → Bool
  | app (.send m) => m.starts
  | _ => false

def relay (m : Message) (p : Wrapped S) : Wrapped S := .op (.app (.send m)) (unlessGone p)

/-- `_send`, and what is done about an exception. -/
def serverErrors (responseStarted : Bool) : Wrapped S → Wrapped S
  | .ret a => .ret a
  | .raise e => if responseStarted then .raise e else relay serverError (relay bodyMessage (.raise e))
  | .op o k => .op o fun r => serverErrors (responseStarted || o.starts) (k r)

/-- `ServerErrorMiddleware.__call__`, after a response has started or before. -/
def outermost (scope : Scope) (responseStarted : Bool) (q : Wrapped S) : Wrapped S :=
  if scope.http then serverErrors responseStarted q else q

section

variable {scope : Scope} {responseStarted : Bool}

theorem outermost_ret (a : Unit) : outermost (S := S) scope responseStarted (.ret a) = .ret a := by
  unfold outermost
  split <;> rfl

theorem outermost_raise (e : S.Exc) : outermost (S := S) scope responseStarted (.raise e) =
    if scope.http = true ∧ responseStarted = false then relay serverError (relay bodyMessage (.raise e)) else .raise e := by
  unfold outermost
  cases scope.http <;> cases responseStarted <;> rfl

theorem outermost_op (o : AsgiOp S) (k : o.Ans → Wrapped S) : outermost scope responseStarted (.op o k) =
    .op o fun r => outermost scope (responseStarted || o.starts) (k r) := by
  unfold outermost
  cases scope.http <;> rfl

end

/-! ## Where a request is -/

/-- A response has started. -/
def sentStart (es : List Effect) : Bool := (es.filterMap Effect.message).any Message.starts

/-- The refusal is being sent, or this much of it has been. -/
def Refusing (e : S.Exc) (tail : List Message) (q : Wrapped S) : Prop :=
  (tail = [serverError] ∧ q = relay bodyMessage (.raise e)) ∨
    (tail = [serverError] ∨ tail = [serverError, bodyMessage]) ∧ ∃ e', q = .raise e'

/-- Where a request is that is served behind both layers. -/
inductive Guarded (scope : Scope) : List Effect × Str → List Effect → Wrapped S → Application S → Prop
  | inside {es context bs p} {q q' : Wrapped S} : Place scope (es, context) bs q p → q' = outermost scope (sentStart es) q →
      Guarded scope (es, context) bs q' p
  | refusing {es context bs p tail} {e : S.Exc} {q' : Wrapped S} : scope.http = true → Place scope (es, context) bs (.raise e) p →
      sentStart es = false → Refusing e tail q' → Guarded scope (es ++ tail.map .sent, context) bs q' p

section

variable {M : Machine S} {H : Host S} {i : Nat} {w b : Process M.State} {scope : Scope} {p : Application S}

theorem sentStart_append (es es' : List Effect) : sentStart (es ++ es') = (sentStart es || sentStart es') := by
  rw [sentStart, List.filterMap_append, List.any_append]
  rfl

theorem sentStart_exec (o : AsgiOp S) : sentStart (seen i (execAsgi M H i w o).2).1 = (sentStart (seen i w).1 || o.starts) := by
  have hdid : ∀ d : Effect, sentStart (seen i (w.did i d)).1 = (sentStart (seen i w).1 || sentStart [d]) := by
    intro d
    rw [seen_did]
    exact sentStart_append _ _
  cases o with
  | app o =>
    cases o with
    | inner o => exact (Bool.or_false _).symm
    | send m =>
      refine (hdid (.sent m)).trans ?_
      rw [show sentStart [.sent m] = m.starts from Bool.or_false _]
      rfl
    | log r => exact hdid _
  | setId id => exact hdid _
  | measure method path status elapsed => exact hdid _
  | _ => exact (Bool.or_false _).symm

/-- Whatever is done behind both layers is matched as it is behind the inner one. -/
theorem guarded_exec {o' : AsgiOp S} {k' : o'.Ans → Wrapped S} (hw : Beside w b) (h : Guarded scope (seen i w) (seen i b).1 (.op o' k') p)
    (hen : (wrapped M H).enabled i o' w = true) :
    ((execAsgi M H i w o').2.inner = b.inner ∧ Guarded scope (seen i (execAsgi M H i w o').2) (seen i b).1 (k' (execAsgi M H i w o').1) p) ∨
    ∃ o k, p = .op o k ∧ enabledApp M i b o = true ∧ (execAsgi M H i w o').2.inner = (execApp M H i b o).2.inner ∧
      Guarded scope (seen i (execAsgi M H i w o').2) (seen i (execApp M H i b o).2).1 (k' (execAsgi M H i w o').1) (k (execApp M H i b o).1) := by
  generalize hv : seen i w = v at h
  cases h with
  | @inside es context bs p q _ hplace hq =>
    cases q with
    | ret a =>
      rw [outermost_ret] at hq
      cases hq
    | raise e =>
      rw [outermost_raise] at hq
      split at hq
      · rename_i hfirst
        obtain ⟨hhttp, hs⟩ := hfirst
        cases hq
        refine .inl ⟨hw.1, ?_⟩
        show Guarded scope (seen i (w.did i (.sent serverError))) (seen i b).1 (unlessGone _ (H.delivers w.sends)) p
        rw [seen_did, hv]
        have hnow : @Refusing S e [serverError] (unlessGone (relay bodyMessage (.raise e)) (H.delivers w.sends)) :=
          (unlessGone_cases _ _).imp (fun h => ⟨rfl, h⟩) fun h => ⟨.inl rfl, h⟩
        exact .refusing hhttp hplace hs hnow
      · cases hq
    | op o k =>
      -- the inner layer performs it, and the outer one has seen whether it starts a response
      rw [outermost_op] at hq
      cases hq
      rw [← hv] at hplace
      have hstarts : (sentStart es || o'.starts) = sentStart (seen i (execAsgi M H i w o').2).1 := by rw [sentStart_exec, hv]
      rcases place_exec hw hplace hen with ⟨hbeside, hplace'⟩ | ⟨o, k, rfl, hen', hbeside, hplace'⟩
      · exact .inl ⟨hbeside.1, .inside hplace' (congrArg (outermost scope · _) hstarts)⟩
      · exact .inr ⟨o, k, rfl, hen', hbeside.1, .inside hplace' (congrArg (outermost scope · _) hstarts)⟩
  | @refusing es context bs p tail e _ hhttp hplace hs hrefusing =>
    rcases hrefusing with ⟨rfl, hq⟩ | ⟨-, e', hq⟩
    · cases hq
      refine .inl ⟨hw.1, ?_⟩
      show Guarded scope (seen i (w.did i (.sent bodyMessage))) (seen i b).1 (unlessGone _ (H.delivers w.sends)) p
      rw [seen_did, hv, List.append_assoc]
      have hnow : @Refusing S e [serverError, bodyMessage] (unlessGone (.raise e) (H.delivers w.sends)) :=
        .inr ⟨.inr rfl, (unlessGone_cases _ _).elim (fun h => ⟨e, h⟩) id⟩
      exact .refusing hhttp hplace hs hnow
    · cases hq

end

/-! ## What is told -/

theorem starts_stamp (id : Str) (m : Message) : (m.stamp id).starts = m.starts := by
  cases m <;> rfl

theorem Relayed.starts {scope : Scope} {own through : List Message} (h : Relayed scope own through) :
    through.any Message.starts = own.any Message.starts := by
  unfold Relayed at h
  split at h
  · obtain ⟨id, -, rfl⟩ := h
    rw [List.any_map]
    exact congrArg own.any (funext (starts_stamp id))
  · rw [h]

/-- The application's messages, and what the outermost layer has added. -/
structure Told (scope : Scope) (p : Application S) (q : Wrapped S) (own all : List Message) : Prop where
  split : ∃ through tail, all = through ++ tail ∧ Relayed scope own through ∧
    (tail = [] ∨ (∃ e, p = .raise e) ∧ own.any Message.starts = false ∧ tail <+: [serverError, bodyMessage])
  /-- A request that returns has been served, and that alone. -/
  returned : q = .ret () → p = .ret () ∧ Relayed scope own all
  /-- A client that is not gone has been told something. -/
  raised : scope.http = true → (∃ e, q = .raise e) → all ≠ []

theorem Guarded.told {scope : Scope} {es bs : List Effect} {context : Str} {q : Wrapped S} {p : Application S}
    (h : Guarded scope (es, context) bs q p) : Told scope p q (bs.filterMap Effect.message) (es.filterMap Effect.message) := by
  cases h with
  | @inside _ _ _ _ q _ hplace hq =>
    refine ⟨⟨_, [], (List.append_nil _).symm, hplace.relayed, .inl rfl⟩, fun hret => ?_, fun hhttp hraise => ?_⟩
    · have hq' : q = finish (asgiSig S) (.ok ()) := by
        rw [hret] at hq
        cases q with
        | ret a => rfl
        | raise e =>
          rw [outermost_raise] at hq
          split at hq <;> cases hq
        | op o k =>
          rw [outermost_op] at hq
          cases hq
      rw [hq'] at hplace
      exact ⟨hplace.over.1, hplace.relayed⟩
    · obtain ⟨e, hraise⟩ := hraise
      intro hnone
      rw [hraise] at hq
      cases q with
      | ret a =>
        rw [outermost_ret] at hq
        cases hq
      | raise e =>
        rw [outermost_raise, if_pos ⟨hhttp, by rw [sentStart, hnone]; rfl⟩] at hq
        cases hq
      | op o k =>
        rw [outermost_op] at hq
        cases hq
  | @refusing es _ _ _ tail e _ hhttp hplace hs hrefusing =>
    have hp : p = finish (appSig S) (.error e) := (Place.over (r := .error e) hplace).1
    have htail : (tail.map Effect.sent).filterMap Effect.message = tail := by
      rw [List.filterMap_map]
      exact List.filterMap_some
    have hshape : tail = [serverError] ∨ tail = [serverError, bodyMessage] := by
      rcases hrefusing with ⟨h, -⟩ | ⟨h, -⟩
      · exact .inl h
      · exact h
    have hmessages : (es ++ tail.map Effect.sent).filterMap Effect.message = es.filterMap Effect.message ++ tail := by
      rw [List.filterMap_append, htail]
    rw [hmessages]
    refine ⟨⟨_, tail, rfl, hplace.relayed, .inr ⟨⟨e, hp⟩, ?_, ?_⟩⟩, fun hret => ?_, fun _ _ hnone => ?_⟩
    · rw [← hplace.relayed.starts]
      exact hs
    · rcases hshape with rfl | rfl
      · exact ⟨[bodyMessage], rfl⟩
      · exact List.prefix_refl _
    · rcases hrefusing with ⟨-, h⟩ | ⟨-, e', h⟩ <;> cases hret.symm.trans h
    · rcases hshape with rfl | rfl <;> simp at hnone

end Asgi

end CivicPulse
