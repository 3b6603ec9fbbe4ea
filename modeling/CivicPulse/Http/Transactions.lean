/-
  CivicPulse.Http.Transactions — what a slow provider or a slow Redis can hold up.

  A request's session is in a transaction from its first statement on, until it commits,
  rolls back or closes. `Txn` follows it through the request.
  - `Brief`: the sessions' traces, writes and locks are what the requests' `Txn`s say.
  - `transactions_brief`: a row's lock is held only by a request whose next step is a
    statement of its session, and whoever is about to ask a provider is in no transaction.
-/

import CivicPulse.Http.Responses
import CivicPulse.Store.Frame

namespace CivicPulse

open Text Lang

open Function (update)

/-! ## Transactions in a trace -/

/-- The transaction is over. -/
def endsTransaction : (Σ o : Op, o.Ans) → Bool
  | ⟨.commit, .ok _⟩ | ⟨.rollback, _⟩ | ⟨.close, _⟩ => true
  | _ => false

/-- A statement begins a transaction where there is none. -/
def Op.isStatement : Op → Bool
  | select _ | selectForUpdate _ | insert _ | updateStatus _ _ | insertRow _ | advisoryLock _ => true
  | _ => false

/-- A statement has been executed since the last transaction was over; newest first. -/
def inTransaction (trace : List (Σ o : Op, o.Ans)) : Bool := (trace.takeWhile fun d => !endsTransaction d).any fun d => d.1.isStatement

theorem inTransaction_cons (d : Σ o : Op, o.Ans) (trace : List (Σ o : Op, o.Ans)) :
    inTransaction (d :: trace) = (!endsTransaction d && (d.1.isStatement || inTransaction trace)) := by
  unfold inTransaction
  rw [List.takeWhile_cons]
  cases endsTransaction d <;> simp

namespace Request

/-! ## A request's transaction -/

inductive Txn where
  | closed
  /-- Rows have been read. -/
  | reading
  /-- A row may be locked or written. -/
  | writing
  deriving DecidableEq

def Txn.next (n : Txn) : (o : Op) → o.Ans → Txn
  | .select _, _ => if n = .writing then .writing else .reading
  | .selectForUpdate _, _ | .insert _, _ | .updateStatus _ _, _ | .insertRow _, _ | .advisoryLock _, _ => .writing
  | .commit, .ok _ | .rollback, _ | .close, _ => .closed
  | _, _ => n

def Txn.Can (n : Txn) (o : Op) : Prop := (n = .writing → OfSession o) ∧ ∀ role p text location, o = .triage role p text location → n = .closed

def txns : Protocol sig Txn := ⟨Txn.Can, fun n o r n' => n' = n.next o r⟩

/-- Away from the session. -/
def Outside : Op → Prop
  | .select _ | .selectForUpdate _ | .insert _ | .updateStatus _ _ | .insertRow _ | .advisoryLock _ | .commit | .rollback | .close => False
  | _ => True

/-- A read, or away from the session and the providers. -/
def Harmless : Op → Prop
  | .select _ => True
  | .triage _ _ _ _ => False
  | o => Outside o

section

variable {α β : Type} {n : Txn} {o : Op}

theorem next_outside (h : Outside o) (n : Txn) (r : o.Ans) : n.next o r = n := by
  cases o with
  | select q => exact h.elim
  | selectForUpdate id => exact h.elim
  | insert d => exact h.elim
  | updateStatus id s => exact h.elim
  | insertRow c => exact h.elim
  | advisoryLock key => exact h.elim
  | commit => exact h.elim
  | rollback => exact h.elim
  | close => exact h.elim
  | _ => rfl

theorem next_harmless (h : Harmless o) (hn : n ≠ .writing) (r : o.Ans) : n.next o r ≠ .writing := by
  by_cases ho : ∃ q, o = .select q
  · obtain ⟨q, rfl⟩ := ho
    show (if n = .writing then Txn.writing else .reading) ≠ .writing
    rw [if_neg hn]
    decide
  · have hout : Outside o := by
      cases o with
      | select q => exact absurd ⟨q, rfl⟩ ho
      | triage role p text location => exact h.elim
      | _ => exact h
    rw [next_outside hout]
    exact hn

/-- While nothing is open, whatever is not for the session may be done. -/
theorem txns_outside {Q : Txn → Except Exc α → Prop} (hQ : ∀ r, Q .closed r) {p : Code α} (h : p.Uses Outside) : Follows txns Q .closed p :=
  Follows.of_uses (T := txns) (fun _ _ => ⟨fun e => (by cases e), fun _ _ _ _ _ => rfl⟩)
    (fun _ ho r _ hs => (show _ = Txn.closed.next _ r from hs).trans (next_outside ho .closed r)) hQ h

theorem txns_harmless {Q : Txn → Except Exc α → Prop} (hQ : ∀ n r, Q n r) {p : Code α} (h : p.Uses Harmless) : Follows txns Q .closed p := by
  refine Follows.within (T := txns) (I := fun n => n ≠ .writing) (fun n o hn ho => ⟨fun e => absurd e hn, ?_⟩) (fun n o hn ho r n' hs => ?_)
    (fun n r _ => hQ n r) h (by decide)
  · rintro role p text location rfl
    exact ho.elim
  · rw [show n' = n.next o r from hs]
    exact next_harmless ho hn r

/-- A session that is closed whatever happens. -/
theorem txns_repository {body : Code α} (h : Follows txns (fun _ _ => True) n body) : Follows txns (fun n _ => n = .closed) n (repository body) := by
  have hsession : ∀ (n : Txn) (o : Op), OfSession o → n.Can o := by
    intro n o ho
    refine ⟨fun _ => ho, ?_⟩
    rintro role p text location rfl
    exact ho.elim
  refine Follows.bind (Follows.tryCatch (Follows.tryCatch (Follows.mono (fun n r _ => ?_) h)))
  cases r with
  | ok a => exact ⟨hsession n _ trivial, fun _ n' hs => hs⟩
  | error e => exact ⟨hsession n _ trivial, fun _ n' _ => ⟨hsession n' _ trivial, fun _ n'' hs => hs⟩⟩

theorem txns_map {f : α → β} {p : Code α} (h : Follows txns (fun _ _ => True) n p) : Follows txns (fun _ _ => True) n (f <$> p) := by
  refine Follows.bind (Follows.mono (fun n r _ => ?_) h)
  cases r <;> trivial

/-! ## Requests -/

variable [Platform]

theorem triage_outside (svc : TriageService) (id text location : Str) : (svc.triage id text location).Uses Outside := by
  refine Prog.uses_mono (fun o ho => ?_) (triage_ofTriage svc id text location)
  cases o with
  | select q => exact ho.elim
  | selectForUpdate id => exact ho.elim
  | insert d => exact ho.elim
  | updateStatus id s => exact ho.elim
  | insertRow c => exact ho.elim
  | advisoryLock key => exact ho.elim
  | commit => exact ho.elim
  | rollback => exact ho.elim
  | close => exact ho.elim
  | _ => trivial

omit [Platform] in
/-- The end of both writing requests. -/
theorem txns_committed (row : Complaint) :
    Follows txns (fun _ _ => True) .writing (do Repository.commit; StatsService.invalidate; return row : Code Complaint) := by
  refine ⟨⟨fun _ => trivial, fun _ _ _ _ e => by cases e⟩, fun r n' hs => ?_⟩
  cases r with
  | error e => trivial
  | ok _ =>
    obtain rfl : n' = .closed := hs
    exact txns_outside (p := StatsService.invalidate >>= fun _ => .ret row) (fun _ => trivial)
      (Prog.uses_bind (JsonCache.uses_delete trivial fun _ _ => trivial) fun _ => trivial)

theorem txns_create (svc : TriageService) (data : ComplaintCreate) :
    Follows txns (fun _ _ => True) .closed (ComplaintService.create svc data) := by
  refine ⟨⟨fun e => (by cases e), fun _ _ _ _ _ => rfl⟩, fun id n' hs => ?_⟩
  obtain rfl : n' = .closed := hs
  refine Follows.bind (txns_outside (fun r => ?_) (triage_outside svc _ _ _))
  cases r with
  | error e => trivial
  | ok outcome =>
    obtain ⟨result, triagedBy, latencyMs, fallback, cached, error⟩ := outcome
    cases result with
    | none => trivial
    | some result =>
      refine ⟨⟨fun e => (by cases e), fun _ _ _ _ e => by cases e⟩, fun r n' hs => ?_⟩
      cases r with
      | error e => trivial
      | ok row =>
        obtain rfl : n' = .writing := hs
        exact txns_committed row

omit [Platform] in
theorem txns_changeStatus (id : Uuid) (target : Status) :
    Follows txns (fun _ _ => True) .closed (ComplaintService.changeStatus id target) := by
  refine ⟨⟨fun e => (by cases e), fun _ _ _ _ e => by cases e⟩, fun r n' hs => ?_⟩
  obtain rfl : n' = .writing := hs
  match r with
  | .error e => trivial
  | .ok none => trivial
  | .ok (some row) =>
    show Follows txns _ _ (if canTransition row.status target = true then _ else _)
    split
    · refine ⟨⟨fun _ => trivial, fun _ _ _ _ e => by cases e⟩, fun r n' hs => ?_⟩
      cases r with
      | error e => trivial
      | ok at_ =>
        obtain rfl : n' = .writing := hs
        exact txns_committed _
    · exact ⟨⟨fun _ => trivial, fun _ _ _ _ e => by cases e⟩, fun _ _ _ => trivial⟩

theorem txns_serve (c : App × Call) : Follows txns (fun n _ => n = .closed) .closed (serve c) := by
  obtain ⟨app, call⟩ := c
  refine txns_repository ?_
  cases call with
  | create data => exact txns_map (txns_create app.triage data)
  | changeStatus id target => exact txns_map (txns_changeStatus id target)
  | stats =>
    refine txns_map (txns_harmless (fun _ _ => trivial) ?_)
    exact StatsService.uses_get (Repository.uses_aggregates trivial fun _ => trivial) trivial trivial (fun _ _ => trivial)
      (fun _ _ => trivial) _
  | get id => exact txns_map (txns_harmless (fun _ _ => trivial) (ComplaintService.uses_get (fun _ => trivial) id))
  | list f page pageSize =>
    exact txns_map (txns_harmless (fun _ _ => trivial) (ComplaintService.uses_list (fun _ => trivial) f page pageSize))
  | invalid errors => trivial

theorem txns_api (g : Gate) (c : App × Route) : Follows txns (fun n _ => n = .closed) .closed (api g c) := by
  rw [api_eq]
  have hfront : (front g c).Uses Outside := by
    refine Prog.uses_mono (fun o ho => ?_) (front_uses g c)
    cases o with
    | time => trivial
    | incrExpire k ttl => trivial
    | warn msg extra => trivial
    | _ => exact ho.elim
  refine Follows.bind (txns_outside (fun r => ?_) hfront)
  cases r with
  | error e => exact rfl
  | ok x =>
    rcases x with a | d
    · exact rfl
    · refine Follows.mono (fun n r h => ?_) (follows_exits (answer c) (txns_serve d))
      obtain ⟨x, hx, -⟩ := h
      exact hx

end

/-! ## What the sessions hold -/

structure Brief (w : World) (ns : Nat → Option Txn) : Prop where
  trace : ∀ i, ns i = some .closed → inTransaction (w.trace i) = false
  rows : ∀ i, ns i ≠ some .writing → w.db.pending i = [] ∧ ∀ id, w.db.locks id ≠ some i
  idle : ∀ i, ns i = none → w.trace i = []

section

variable [Platform] {E : Env} {w : World} {ns : Nat → Option Txn} {i : Nat} {n : Txn} {o : Op}

omit [Platform] in
theorem outside_kept {db db' : Db} (ho : Outside o) (h : Db.Step i db o db') : db' = db := by
  cases h with
  | same => rfl
  | _ => exact ho.elim

/-- A transaction that is over, or has only read, has locked and written nothing. -/
theorem rows_own (hw : n ≠ .writing → w.db.pending i = [] ∧ ∀ id, w.db.locks id ≠ some i)
    (hn : n.next o (World.exec E i o w).1 ≠ .writing) :
    (World.exec E i o w).2.db.pending i = [] ∧ ∀ id, (World.exec E i o w).2.db.locks id ≠ some i := by
  have hfinish : (w.db.finish i).pending i = [] ∧ ∀ id, (w.db.finish i).locks id ≠ some i :=
    ⟨Function.update_self .., fun id h => (World.finish_locks.mp h).1 rfl⟩
  have houtside : Outside o → (World.exec E i o w).2.db.pending i = [] ∧ ∀ id, (World.exec E i o w).2.db.locks id ≠ some i := by
    intro ho
    rw [outside_kept ho (World.exec_db o)]
    exact hw (by rwa [next_outside ho] at hn)
  cases o with
  | select q =>
    rw [(World.select_cases q).1]
    refine hw fun e => hn ?_
    rw [e]
    rfl
  | selectForUpdate id => exact absurd rfl hn
  | insert d => exact absurd rfl hn
  | updateStatus id s => exact absurd rfl hn
  | insertRow c => exact absurd rfl hn
  | advisoryLock key => exact absurd rfl hn
  | commit =>
    rcases World.commit_cases (E := E) (i := i) (w := w) with ⟨hdb, e, hans⟩ | ⟨hans, hdb⟩
    · rw [hdb]
      rw [hans] at hn
      exact hw hn
    · rw [hdb, (World.commit_finish w.db).1, (World.commit_finish w.db).2.1]
      exact hfinish
  | rollback => exact hfinish
  | close => exact hfinish
  | _ => exact houtside trivial

theorem trace_own (hw : n = .closed → inTransaction (w.trace i) = false) (hn : n.next o (World.exec E i o w).1 = .closed) :
    inTransaction ((World.exec E i o w).2.trace i) = false := by
  rw [World.trace_exec, inTransaction_cons]
  generalize (World.exec E i o w).1 = r at hn ⊢
  cases o with
  | select q =>
    have hne : (if n = .writing then Txn.writing else .reading) ≠ .closed := by split <;> decide
    exact absurd hn hne
  | selectForUpdate id => cases hn
  | insert d => cases hn
  | updateStatus id s => cases hn
  | insertRow c => cases hn
  | advisoryLock key => cases hn
  | commit =>
    cases r with
    | ok _ => rfl
    | error e => exact hw hn
  | rollback => rfl
  | close => rfl
  | _ => exact hw hn

theorem Brief.exec (h : Brief w ns) (hi : ns i = some n) :
    Brief (World.exec E i o w).2 (update ns i (some (n.next o (World.exec E i o w).1))) where
  trace j hj := by
    rcases update_some hj with ⟨rfl, e⟩ | ⟨hne, hj⟩
    · exact trace_own (fun hn => h.trace j (hn ▸ hi)) e.symm
    · rw [World.trace_exec_ne hne]
      exact h.trace j hj
  rows j hj := by
    by_cases e : j = i
    · subst e
      rw [Function.update_self] at hj
      exact rows_own (fun hn => h.rows j (by rw [hi]; exact fun e => hn (Option.some.inj e))) fun e => hj (by rw [e])
    · rw [Function.update_of_ne e] at hj
      obtain ⟨hpending, hlocks⟩ := h.rows j hj
      refine ⟨(World.exec_pending e o).trans hpending, fun id hid => ?_⟩
      rcases World.exec_locks hid with hold | ⟨hji, -⟩
      · exact hlocks id hold
      · exact e hji
  idle j hj := by
    obtain ⟨hne, hj⟩ := update_none hj
    rw [World.trace_exec_ne hne]
    exact h.idle j hj

omit [Platform] in
theorem Brief.start (h : Brief w ns) (hi : ns i = none) : Brief w (update ns i (some .closed)) where
  trace j hj := by
    rcases update_some hj with ⟨rfl, -⟩ | ⟨-, hj⟩
    · rw [h.idle j hi]
      rfl
    · exact h.trace j hj
  rows j hj := by
    by_cases e : j = i
    · exact h.rows j (by rw [e, hi]; exact fun h => by cases h)
    · rw [Function.update_of_ne e] at hj
      exact h.rows j hj
  idle j hj := h.idle j (update_none hj).2

/-! ## Runs -/

def sessions (E : Env) : Outline (machine E) (App × Route) Answer Txn where
  toProtocol := txns
  post _ n _ := n = .closed
  inv := Brief

theorem sessions_sound (g : Gate) (E : Env) : (sessions E).Sound (api g) where
  start := by
    intro w ns i c h hi
    exact ⟨.closed, h.start hi, trivial, txns_api g c⟩
  exec := by
    intro w ns i n o h hi hcan hen
    exact ⟨_, rfl, h.exec hi, fun _ _ => trivial⟩

/-- In every state of every run: a row's lock, and a write that is not committed, are held only
    by a request whose next step is a statement of its session; and a request that is about to
    ask a provider is in no transaction. -/
theorem transactions_brief {g : Gate} {t₀ : Table} {w₀ : World} (h₀ : w₀.db = opened t₀) (hlog : w₀.log = [])
    {P : Pool (machine E) (App × Route) Answer} (hP : Pool.Steps (api g) (.fresh w₀) P) :
    (∀ i, ((∃ id, P.shared.db.locks id = some i) ∨ P.shared.db.pending i ≠ []) →
      ∃ c o k, P.threads i = some ⟨c, .op o k⟩ ∧ OfSession o) ∧
    ∀ i c role p text location k, P.threads i = some ⟨c, .op (.triage role p text location) k⟩ → inTransaction (P.shared.trace i) = false := by
  have hinit : Brief w₀ fun _ => none := by
    refine ⟨fun _ h => (by cases h), fun i _ => ?_, fun i _ => ?_⟩
    · rw [h₀]
      exact ⟨rfl, fun _ h => by cases h⟩
    · rw [World.trace, hlog]
      rfl
  obtain ⟨ns, hAt⟩ := Outline.keeps (sessions_sound g E) hP (Outline.fresh_holds hinit)
  refine ⟨fun i hholds => ?_, fun i c role p text location k ht => ?_⟩
  · have hwriting : ns i = some .writing := by
      by_contra hne
      obtain ⟨hpending, hlocks⟩ := hAt.inv.rows i hne
      rcases hholds with ⟨id, hid⟩ | hp
      · exact hlocks id hid
      · exact hp hpending
    cases ht : P.threads i with
    | none =>
      rw [hAt.idle i ht] at hwriting
      cases hwriting
    | some t =>
      obtain ⟨n, hn, -, hf⟩ := hAt.busy i t ht
      rw [hwriting] at hn
      cases hn
      obtain ⟨c, q⟩ := t
      cases q with
      | ret a => cases (show Txn.writing = .closed from hf)
      | raise e => cases (show Txn.writing = .closed from hf)
      | op o k => exact ⟨c, o, k, rfl, hf.1.1 rfl⟩
  · obtain ⟨n, hn, -, hf⟩ := hAt.busy i _ ht
    obtain rfl : n = .closed := hf.1.2 role p text location rfl
    exact hAt.inv.trace i hn

end

/-! ## An operator and a citizen -/

/-- The operator has the row; the citizen's complaint is about to be triaged. -/
def contended : Pool (@machine .ascii (.calm fun _ _ _ => .error .triageTimeout)) (App × Route) Answer :=
  Pool.schedule (@api .ascii ⟨⟨10, 60⟩, true⟩)
    (.start 0 (replica, .changeStatus 7 .inProgress) :: .exec 0 :: .start 1 (replica, .createComplaint someone leak) ::
      List.replicate 6 (.exec 1))
    (.fresh (.initial potholes))

/-- A request that is about to ask a provider. -/
def asks : Code Answer → Bool
  | .op (.triage _ _ _ _) _ => true
  | _ => false

theorem transactions_brief_contended : contended.shared.db.locks 7 = some 0 ∧
    (∃ c o k, contended.threads 0 = some ⟨c, .op o k⟩ ∧ OfSession o) ∧
    (∃ c role p text location k, contended.threads 1 = some ⟨c, .op (.triage role p text location) k⟩) ∧
    inTransaction (contended.shared.trace 1) = false := by
  have hlock : contended.shared.db.locks 7 = some 0 := by decide +kernel
  have hasks : ((contended.threads 1).any fun t => asks t.prog) = true := by decide +kernel
  obtain ⟨hheld, houtside⟩ := @transactions_brief .ascii (.calm fun _ _ _ => .error .triageTimeout) ⟨⟨10, 60⟩, true⟩ potholes
    (.initial potholes) rfl rfl contended (Pool.schedule_steps _ _ _)
  obtain ⟨⟨c, p⟩, ht, hasks⟩ := (Option.any_eq_true _ _).mp hasks
  cases p with
  | op o k =>
    cases o with
    | triage role p text location =>
      exact ⟨hlock, hheld 0 (.inl ⟨7, hlock⟩), ⟨c, role, p, text, location, k, ht⟩, houtside 1 c role p text location k ht⟩
    | _ => cases hasks
  | _ => cases hasks

end Request

end CivicPulse
