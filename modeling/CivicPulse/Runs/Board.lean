/-
  CivicPulse.Runs.Board — what the service is for, and that concurrent requests are no more
  than that.

  A board maps ids to complaints. Submitting, moving and looking at a complaint are steps of
  it that take effect at once; a move that `TRANSITIONS` does not have is refused and an
  unknown id is missing. The code takes several statements for each, in a session of its
  own, while others are in the middle of theirs.
  - `Note`, `notes`: what a request's statements amount to so far, and the protocol of it.
  - `noted_step`, `board_exec`: each operation keeps the note in line with the request's
    phase and the entries in line with the table.
  - `requests_linearize`: after any run the requests that have an effect or an answer are
    steps of the board, in an order that keeps to real time.
-/

import CivicPulse.Lang.Linear
import CivicPulse.Lang.Product
import CivicPulse.Runs.RequestRuns

namespace CivicPulse

open Text Lang

open Function (update)

/-! ## The board -/

abbrev Board := Uuid → Option Complaint

namespace Board

inductive Operation where
  | submit (data : ComplaintCreate)
  | move (id : Uuid) (target : Status)
  | look (id : Uuid)

inductive Outcome where
  | shown (c : Complaint)
  | missing
  | conflict (current attempted : Status)

/-- The complaint is what was submitted. -/
structure Holds (data : ComplaintCreate) (c : Complaint) : Prop where
  text : c.text = data.text.str
  location : c.location = data.location.str
  contact : c.reporterContact = data.reporterContact.map (·.str)

inductive Step (b : Board) : Operation → Outcome → Board → Prop
  | submitted (data : ComplaintCreate) (c : Complaint) : b c.id = none → c.status = .open_ → Holds data c →
      Step b (.submit data) (.shown c) (update b c.id (some c))
  | moved (row : Complaint) (target : Status) (at_ : Int) : b row.id = some row → canTransition row.status target = true →
      Step b (.move row.id target) (.shown { row with status := target, updatedAt := at_ })
        (update b row.id (some { row with status := target, updatedAt := at_ }))
  | refused (row : Complaint) (target : Status) : b row.id = some row → canTransition row.status target = false →
      Step b (.move row.id target) (.conflict row.status target) b
  | unmoved (id : Uuid) (target : Status) : b id = none → Step b (.move id target) .missing b
  | looked (row : Complaint) : b row.id = some row → Step b (.look row.id) (.shown row) b
  | unseen (id : Uuid) : b id = none → Step b (.look id) .missing b

end Board

/-- The board that a table stands for. -/
def Table.board (t : Table) : Board := t.find

theorem board_insert {t : Table} {c : Complaint} (h : t.find c.id = none) :
    (t.insert c).board = update t.board c.id (some c) := by
  funext id
  rw [Table.board, Table.find_insert (Table.find_none.mp h)]
  by_cases e : id = c.id
  · subst e
    rw [if_pos rfl, Function.update_self]
  · rw [if_neg e, Function.update_of_ne e]
    rfl

theorem board_setStatus {t : Table} {row : Complaint} (h : t.find row.id = some row) (s : Status) (at_ : Int) :
    (t.setStatus row.id s at_).board = update t.board row.id (some { row with status := s, updatedAt := at_ }) := by
  funext id
  rw [Table.board, Table.find_setStatus]
  by_cases e : id = row.id
  · subst e
    rw [h, Option.map_some, if_pos rfl, Function.update_self]
  · rw [Function.update_of_ne e]
    simp [e, Table.board]

/-- What a call does to the board; statistics and pages are no steps of it. -/
def Call.operation : Call → Option Board.Operation
  | .create data => some (.submit data)
  | .changeStatus id target => some (.move id target)
  | .get id => some (.look id)
  | _ => none

/-- How a call that came out so ends. -/
def Board.Outcome.reply : Outcome → Except Exc Reply
  | shown c => .ok (.complaint c)
  | missing => .error (.notFoundError "complaint".toList)
  | conflict current attempted => .error (.invalidTransitionError current attempted)

namespace Request

open Board

/-! ## Notes -/

/-- What a request's statements amount to: the row it has locked, what its commit will do,
    and what has come of it. -/
structure Note where
  call : Call
  asked : Bool
  held : Option Complaint
  waiting : Option Outcome
  made : Option Outcome

def noteBegun (c : App × Call) : Note := ⟨c.2, false, none, none, none⟩

/-- What becomes of a locked row. -/
def noteLocked (n : Note) (row : Complaint) : Note :=
  match n.call with
  | .changeStatus _ target =>
    if canTransition row.status target then { n with asked := true, held := some row }
    else { n with asked := true, held := some row, made := some (.conflict row.status target) }
  | _ => n

theorem noteLocked_eq {n : Note} {id : Uuid} {target : Status} (h : n.call = .changeStatus id target) (row : Complaint) :
    noteLocked n row = if canTransition row.status target then { n with asked := true, held := some row }
      else { n with asked := true, held := some row, made := some (.conflict row.status target) } := by
  obtain ⟨call, asked, held, waiting, made⟩ := n
  subst h
  rfl

def note (n : Note) : (o : Op) → o.Ans → Note
  | .select (.byId _), r => match r with
    | .ok (some row) => { n with made := some (.shown row) }
    | .ok none => { n with made := some .missing }
    | .error _ => n
  | .selectForUpdate _, r => match r with
    | .ok (some row) => noteLocked n row
    | .ok none => { n with asked := true, made := some .missing }
    | .error _ => { n with asked := true }
  | .insert _, r => match r with
    | .ok row => { n with asked := true, waiting := some (.shown row) }
    | .error _ => { n with asked := true }
  | .updateStatus _ s, r => match r with
    | .ok at_ => { n with waiting := n.held.map fun row => .shown { row with status := s, updatedAt := at_ } }
    | .error _ => n
  | .commit, r => match r with
    | .ok _ => { n with made := n.waiting }
    | .error _ => n
  | _, _ => n

/-- A request comes to one thing, and waits for a row at most once. -/
def NoteCan (n : Note) : Op → Prop
  | .select (.byId id) => n.made = none ∧ n.call = .get id
  | .selectForUpdate id => n.made = none ∧ n.asked = false ∧ ∃ target, n.call = .changeStatus id target
  | .insert d => n.asked = false ∧ ∃ data, n.call = .create data ∧ d.text = data.text.str ∧ d.location = data.location.str ∧
      d.reporterContact = data.reporterContact.map (·.str)
  | .commit => n.made = none
  | _ => True

/-- The database failed. -/
def Broken (e : Exc) : Prop := ∃ cls, e = .databaseError cls

/-- A new row is the draft's, and a statement that fails is the database's failure. -/
def Genuine : (o : Op) → o.Ans → Prop
  | .insert d, r => ∀ row, r = .ok row → row.text = d.text ∧ row.location = d.location ∧ row.reporterContact = d.reporterContact
  | .select _, r => ∀ e, r = .error e → Broken e
  | .selectForUpdate _, r => ∀ e, r = .error e → Broken e
  | .updateStatus _ _, r => ∀ e, r = .error e → Broken e
  | .commit, r => ∀ e, r = .error e → Broken e
  | _, _ => True

def notes : Protocol sig Note where
  can := NoteCan
  step n o r n' := Genuine o r ∧ n' = note n o r

/-- What a note says of how its request ends. A writing request that has come to something
    may still fail as far as the note knows. -/
def NotePost (c : App × Call) (n : Note) : Except Exc Reply → Prop
  | .ok reply => match c.2.operation with
    | some _ => ∃ row, reply = .complaint row ∧ n.made = some (.shown row)
    | none => n.made = none
  | .error e => (n.made = none ∧ ((∃ id, c.2.operation = some (.look id)) ∨ (∃ id s, c.2.operation = some (.move id s)) → Broken e)) ∨
      (∃ out, n.made = some out ∧ out.reply = .error e) ∨ (∃ row, n.made = some (.shown row)) ∧ ∀ id, c.2 ≠ .get id

/-! ## Requests keep to their notes -/

section

variable {α β : Type} {n : Note}

/-- Operations that a note says nothing about. -/
def Unnoted : Op → Prop
  | .select (.byId _) | .selectForUpdate _ | .insert _ | .updateStatus _ _ | .commit => False
  | _ => True

theorem unnoted {o : Op} (h : Unnoted o) (n : Note) : NoteCan n o ∧ ∀ r, note n o r = n := by
  cases o with
  | select q =>
    cases q with
    | byId id => exact h.elim
    | _ => exact ⟨trivial, fun _ => rfl⟩
  | selectForUpdate id => exact h.elim
  | insert d => exact h.elim
  | updateStatus id s => exact h.elim
  | commit => exact h.elim
  | _ => exact ⟨trivial, fun _ => rfl⟩

theorem unnoted_aside {o : Op} (h : Aside o) : Unnoted o := by
  cases o with
  | select q => exact h.elim
  | selectForUpdate id => exact h.elim
  | insert d => exact h.elim
  | updateStatus id s => exact h.elim
  | commit => exact h.elim
  | _ => trivial

abbrev Notes (Q : Note → Except Exc α → Prop) (n : Note) (p : Code α) : Prop := Follows notes Q n p

theorem notes_unnoted {Q : Note → Except Exc α → Prop} {p : Code α} (hp : p.Uses Unnoted) (hQ : ∀ r, Q n r) : Notes Q n p := by
  refine Follows.of_uses (fun o h => (unnoted h n).1) (fun o h r n' hs => ?_) hQ hp
  obtain ⟨-, rfl⟩ := hs
  exact (unnoted h n).2 r

theorem notes_map {Q : Note → Except Exc β → Prop} {f : α → β} {p : Code α} (h : Notes (fun n r => Q n (r.map f)) n p) :
    Notes Q n (f <$> p) := by
  refine Follows.bind (Follows.mono ?_ h)
  intro n r hr
  cases r with
  | ok a => exact hr
  | error e => exact hr

/-- A note outlives its session. -/
theorem notes_repository {Q : Note → Except Exc α → Prop} {body : Code α} (h : Notes Q n body) : Notes Q n (repository body) := by
  refine Follows.bind (Follows.tryCatch (Follows.tryCatch (Follows.mono ?_ h)))
  intro n r hr
  cases r with
  | ok a =>
    refine ⟨trivial, fun _ n' hn => ?_⟩
    obtain ⟨-, rfl⟩ := hn
    exact hr
  | error e =>
    refine ⟨trivial, fun _ n' hn => ⟨trivial, fun _ n'' hn' => ?_⟩⟩
    obtain ⟨-, rfl⟩ := hn
    obtain ⟨-, rfl⟩ := hn'
    exact hr

/-- The end of both writing requests. -/
theorem notes_committed {Q : Note → Except Exc Complaint → Prop} {row : Complaint} (hmade : n.made = none)
    (hfail : ∀ e, Broken e → Q n (.error e)) (hend : ∀ r, (∀ c, r = .ok c → c = row) → Q { n with made := n.waiting } r) :
    Notes Q n (do Repository.commit; StatsService.invalidate; return row) := by
  refine ⟨hmade, fun r n' hn => ?_⟩
  obtain ⟨hg, rfl⟩ := hn
  cases r with
  | error e => exact hfail e (hg e rfl)
  | ok u =>
    show Notes Q _ (StatsService.invalidate >>= fun _ => .ret row)
    refine Follows.bind (notes_unnoted (JsonCache.uses_delete trivial fun _ _ => trivial) fun r => ?_)
    cases r with
    | ok u => exact hend _ fun c hc => (Except.ok.inj hc).symm
    | error e => exact hend _ fun c hc => by cases hc

section

variable [Platform]

theorem notes_create {Q : Note → Except Exc Complaint → Prop} {svc : TriageService} {data : ComplaintCreate}
    (hcall : n.call = .create data) (hasked : n.asked = false) (hmade : n.made = none)
    (hfail : ∀ n', n'.made = none → ∀ e, Q n' (.error e))
    (hend : ∀ n' row, n'.made = some (.shown row) → ∀ r, (∀ c, r = .ok c → c = row) → Q n' r) :
    Notes Q n (ComplaintService.create svc data) := by
  refine ⟨trivial, fun id n' hn => ?_⟩
  obtain ⟨-, rfl⟩ := hn
  refine Follows.bind (notes_unnoted (Prog.uses_mono (fun _ => unnoted_aside) (triage_uses svc _ _ _)) fun r => ?_)
  cases r with
  | error e => exact hfail _ hmade e
  | ok outcome =>
    obtain ⟨result, triagedBy, latencyMs, fallback, cached, error⟩ := outcome
    cases result with
    | none => exact hfail _ hmade _
    | some result =>
      refine ⟨⟨hasked, data, hcall, rfl, rfl, rfl⟩, fun r n' hn => ?_⟩
      obtain ⟨-, rfl⟩ := hn
      cases r with
      | error e => exact hfail { n' with asked := true } hmade e
      | ok row =>
        refine notes_committed hmade (fun e _ => ?_) fun r hr => hend _ row rfl r hr
        exact hfail { n' with asked := true, waiting := some (.shown row) } hmade e

end

theorem notes_changeStatus {Q : Note → Except Exc Complaint → Prop} {id : Uuid} {target : Status}
    (hcall : n.call = .changeStatus id target) (hasked : n.asked = false) (hmade : n.made = none)
    (hfail : ∀ n', n'.made = none → ∀ e, Broken e → Q n' (.error e))
    (hend : ∀ n' row, n'.made = some (.shown row) → ∀ r, (∀ c, r = .ok c → c = row) → Q n' r)
    (hrefused : ∀ n' out e, n'.made = some out → out.reply = .error e → Q n' (.error e)) :
    Notes Q n (ComplaintService.changeStatus id target) := by
  refine ⟨⟨hmade, hasked, target, hcall⟩, fun r n' hn => ?_⟩
  obtain ⟨hg, rfl⟩ := hn
  match r, hg with
  | .error e, hg => exact hfail { n with asked := true } hmade e (hg e rfl)
  | .ok none, _ => exact hrefused { n with asked := true, made := some .missing } .missing _ rfl rfl
  | .ok (some row), _ =>
    rw [show note n (.selectForUpdate id) (.ok (some row)) = _ from noteLocked_eq hcall row]
    show Notes Q _ (if canTransition row.status target = true then _ else _)
    split
    · refine ⟨trivial, fun r n' hn => ?_⟩
      obtain ⟨hg, rfl⟩ := hn
      cases r with
      | error e => exact hfail { n with asked := true, held := some row } hmade e (hg e rfl)
      | ok at_ =>
        refine notes_committed hmade (fun e he => ?_) fun r hr => hend _ _ rfl r hr
        exact hfail (note { n with asked := true, held := some row } (.updateStatus row.id target) (.ok at_)) hmade e he
    · refine ⟨trivial, fun _ n' hn => ?_⟩
      obtain ⟨-, rfl⟩ := hn
      exact hrefused _ (.conflict row.status target) _ rfl rfl

theorem notes_serve [Platform] (c : App × Call) : Notes (NotePost c) (noteBegun c) (serve c) := by
  refine notes_repository ?_
  obtain ⟨app, call⟩ := c
  cases call with
  | create data =>
    have hcreate : (∃ id, (Call.create data).operation = some (.look id)) ∨ (∃ id s, (Call.create data).operation = some (.move id s)) →
        ∀ e, Broken e := by
      rintro (⟨id, h⟩ | ⟨id, s, h⟩) <;> cases h
    refine notes_map (notes_create rfl rfl rfl (fun n' hn e => .inl ⟨hn, fun h => hcreate h e⟩) fun n' row hn r hr => ?_)
    cases r with
    | ok c => exact ⟨c, rfl, by rw [hn, hr c rfl]⟩
    | error e => exact .inr (.inr ⟨⟨row, hn⟩, nofun⟩)
  | changeStatus id target =>
    refine notes_map (notes_changeStatus rfl rfl rfl (fun n' hn e he => .inl ⟨hn, fun _ => he⟩) (fun n' row hn r hr => ?_)
      fun n' out e hn hout => .inr (.inl ⟨out, hn, hout⟩))
    cases r with
    | ok c => exact ⟨c, rfl, by rw [hn, hr c rfl]⟩
    | error e => exact .inr (.inr ⟨⟨row, hn⟩, nofun⟩)
  | stats =>
    refine notes_map (notes_unnoted (StatsService.uses_get ?_ trivial trivial (fun _ _ => trivial) (fun _ _ => trivial) _) fun r => ?_)
    · exact Repository.uses_aggregates trivial fun _ => trivial
    · cases r with
      | ok s => exact rfl
      | error e => exact .inl ⟨rfl, by rintro (⟨id, h⟩ | ⟨id, s, h⟩) <;> cases h⟩
  | get id =>
    refine notes_map ⟨⟨rfl, rfl⟩, fun r n' hn => ?_⟩
    obtain ⟨hg, rfl⟩ := hn
    match r, hg with
    | .error e, hg => exact .inl ⟨rfl, fun _ => hg e rfl⟩
    | .ok none, _ => exact .inr (.inl ⟨.missing, rfl, rfl⟩)
    | .ok (some row), _ => exact ⟨row, rfl, rfl⟩
  | list f page pageSize =>
    refine notes_map (notes_unnoted (p := ComplaintService.list f page pageSize) ?_ fun r => ?_)
    · exact ⟨trivial, fun _ => Prog.uses_bind (uses_ofExcept _) fun _ => ⟨trivial, fun _ => Prog.uses_bind (uses_ofExcept _) fun _ => trivial⟩⟩
    · cases r with
      | ok s => exact rfl
      | error e => exact .inl ⟨rfl, by rintro (⟨id, h⟩ | ⟨id, s, h⟩) <;> cases h⟩
  | invalid errors => exact .inl ⟨rfl, by rintro (⟨id, h⟩ | ⟨id, s, h⟩) <;> cases h⟩

end

/-! ## Notes and phases -/

/-- What the transaction's commit will do. -/
def Phase.outcome : Phase → Option Outcome
  | .moved row s at_ => some (.shown { row with status := s, updatedAt := at_ })
  | .inserted row => some (.shown row)
  | _ => none

/-- The note agrees with the phase of the request. -/
structure Noted (l : Loc) (n : Note) : Prop where
  call : n.call = l.call.2
  waits : n.asked = false → l.phase = .idle
  held : ∀ row, l.phase = .locked row → n.held = some row
  waiting : ∀ out, l.phase.outcome = some out → n.waiting = some out
  holds : ∀ row data, l.phase = .inserted row → n.call = .create data → Holds data row
  looked : l.phase.Open → ∀ row, n.made = some (.shown row) → ∃ id, n.call = .get id

section

variable {l l' : Loc} {n : Note} {o : Op}

theorem Noted.same (h : Noted l n) (hcall : l'.call = l.call) (hphase : l'.phase = l.phase) : Noted l' n :=
  ⟨hcall ▸ h.call, hphase ▸ h.waits, hphase ▸ h.held, hphase ▸ h.waiting, hphase ▸ h.holds, hphase ▸ h.looked⟩

theorem Noted.released (h : Noted l n) : Noted l.released n := by
  refine ⟨h.call, fun ha => ?_, fun row hr => ?_, fun out hout => ?_, fun row data hr => ?_, fun hopen => h.looked fun ws t e => ?_⟩
  · rw [Loc.released_phase, h.waits ha]
    rfl
  · rw [Loc.released_phase] at hr
    cases hp : l.phase <;> rw [hp] at hr <;> cases hr
  · rw [Loc.released_phase] at hout
    cases hp : l.phase <;> rw [hp] at hout <;> cases hout
  · rw [Loc.released_phase] at hr
    cases hp : l.phase <;> rw [hp] at hr <;> cases hr
  · rw [Loc.released_phase, e] at hopen
    exact hopen ws t rfl

/-- What a note says nothing about leaves the transaction where it is, or ends it. -/
theorem Noted.unnoted (h : Noted l n) (ho : Unnoted o) {r : o.Ans} (hm : Moves l o r l') : Noted l' n := by
  cases o with
  | get k =>
    obtain ⟨-, hl⟩ := hm
    split at hl
    · split at hl
      · obtain ⟨b, rfl⟩ := hl
        exact h.same rfl rfl
      · rw [hl]
        exact h
    · rw [hl]
      exact h
  | delete ks =>
    obtain ⟨-, hdropped, hkept⟩ := hm
    by_cases hk : STATS_KEY ∈ ks
    · rw [hdropped hk]
      exact h.same rfl rfl
    · rw [hkept hk]
      exact h
  | set k v ex => exact hm.2 ▸ h
  | incr k => exact hm.2 ▸ h
  | pushTrim k v m => exact hm.2 ▸ h
  | select q =>
    cases r with
    | error e => exact (show l' = l from hm) ▸ h
    | ok a =>
      obtain ⟨-, hl⟩ := hm
      split at hl
      · obtain ⟨b, rfl⟩ := hl
        exact h.same rfl rfl
      · rw [hl]
        exact h
  | rollback => exact (show l' = l.released from hm) ▸ h.released
  | close => exact (show l' = l.released from hm) ▸ h.released
  | selectForUpdate id => exact ho.elim
  | insert d => exact ho.elim
  | updateStatus id s => exact ho.elim
  | commit => exact ho.elim
  | _ => exact (show l' = l from hm) ▸ h

/-- Every operation keeps note and phase together. -/
theorem noted_step [Platform] (h : Noted l n) (hcan : Performs l o) (hn : NoteCan n o) {r : o.Ans} (hg : Genuine o r)
    (hm : Moves l o r l') : Noted l' (note n o r) := by
  cases o with
  | select q =>
    cases q with
    | byId id =>
      have hl : l' = l := by
        cases r with
        | error e => exact hm
        | ok a => exact hm.2
      rw [hl]
      match r with
      | .error e => exact h
      | .ok none => exact ⟨h.call, h.waits, h.held, h.waiting, h.holds, fun _ _ e => by cases e⟩
      | .ok (some row) => exact ⟨h.call, h.waits, h.held, h.waiting, h.holds, fun _ _ _ => ⟨id, hn.2⟩⟩
    | countAvg => exact h.unnoted (o := .select .countAvg) trivial hm
    | groupBy col => exact h.unnoted (o := .select (.groupBy col)) trivial hm
    | count f => exact h.unnoted (o := .select (.count f)) trivial hm
    | page f offset limit => exact h.unnoted (o := .select (.page f offset limit)) trivial hm
  | selectForUpdate id =>
    obtain ⟨hmade, -, target, hcall⟩ := hn
    match r, hm with
    | .error e, hm =>
      rw [show l' = l from hm]
      exact ⟨h.call, fun _ => hcan.1, h.held, h.waiting, h.holds, h.looked⟩
    | .ok none, hm =>
      rw [show l' = l from hm]
      exact ⟨h.call, fun _ => hcan.1, h.held, h.waiting, h.holds, fun _ _ e => by cases e⟩
    | .ok (some row), hm =>
      obtain ⟨-, rfl⟩ := hm
      rw [show note n (.selectForUpdate id) (.ok (some row)) = _ from noteLocked_eq hcall row]
      split
      · exact ⟨h.call, fun e => (by cases e), fun _ e => (by cases e; rfl), fun _ e => (by cases e), fun _ _ e => (by cases e),
          fun _ row e => by rw [show n.made = some (.shown row) from e] at hmade; cases hmade⟩
      · exact ⟨h.call, fun e => (by cases e), fun _ e => (by cases e; rfl), fun _ e => (by cases e), fun _ _ e => (by cases e),
          fun _ row e => (by cases e)⟩
  | insert d =>
    cases r with
    | error e =>
      rw [show l' = l from hm]
      exact ⟨h.call, fun _ => hcan.1, h.held, h.waiting, h.holds, h.looked⟩
    | ok row =>
      obtain ⟨-, rfl⟩ := hm
      refine ⟨h.call, fun e => (by cases e), fun _ e => (by cases e), fun _ e => e, fun row' data e hcall => ?_,
        fun _ => h.looked fun ws t e => ?_⟩
      · cases e
        obtain ⟨-, data', hcall', htext, hloc, hcontact⟩ := hn
        rw [show n.call = .create data from hcall] at hcall'
        cases hcall'
        obtain ⟨h1, h2, h3⟩ := hg row rfl
        exact ⟨h1.trans htext, h2.trans hloc, h3.trans hcontact⟩
      · rw [hcan.1] at e
        cases e
  | updateStatus id s =>
    obtain ⟨row, hphase, -⟩ := hcan
    cases r with
    | error e =>
      rw [show l' = l from hm]
      exact h
    | ok at_ =>
      have hl : l' = { l with phase := .moved row s at_ } := by
        unfold Moves at hm
        rw [hphase] at hm
        exact hm
      rw [hl]
      refine ⟨h.call, fun ha => ?_, fun _ e => (by cases e), fun out hout => ?_, fun _ _ e => (by cases e),
        fun _ => h.looked fun ws t e => ?_⟩
      · rw [h.waits ha] at hphase
        cases hphase
      · rw [show (note n (.updateStatus id s) (.ok at_)).waiting = n.held.map _ from rfl, h.held row hphase]
        exact hout
      · rw [hphase] at e
        cases e
  | commit =>
    cases r with
    | error e =>
      rw [show l' = l from hm]
      exact h
    | ok u =>
      obtain ⟨t, -, rfl⟩ := hm
      refine ⟨h.call, fun ha => ?_, fun _ e => (by cases e), fun _ e => (by cases e), fun _ _ e => (by cases e),
        fun hopen => (hopen _ _ rfl).elim⟩
      have hidle := h.waits ha
      have hpending : l.phase.pending ≠ [] := hcan
      rw [hidle] at hpending
      exact absurd rfl hpending
  | _ => exact h.unnoted (by trivial) hm

end

/-! ## The entries -/

section

variable [Platform] {E : Env} {t₀ : Table} {w : World} {ls : Nat → Option (Loc × Note)} {es : List (Deed Operation Outcome)}
  {i : Nat} {l : Loc} {n : Note} {o : Op}

/-- Who has performed what was logged. -/
def performers (w : World) : List Nat := w.log.map (·.tid)

theorem stamps (E : Env) : Stamps (machine E) performers := fun _ _ _ => rfl

/-- The entries lead to the table, and are what the requests' notes have come to. -/
structure Linear (t₀ : Table) (w : World) (ls : Nat → Option (Loc × Note)) (es : List (Deed Operation Outcome)) : Prop where
  path : Path Step t₀.board es w.db.table.board
  aligned : Aligned (performers w) es
  entries : ∀ e ∈ es, ∃ l n, ls e.tid = some (l, n) ∧ n.call.operation = some e.op ∧ n.made = some e.out
  made : ∀ i l n, ls i = some (l, n) → n.made ≠ none → ∃ e ∈ es, e.tid = i
  noted : ∀ i l n, ls i = some (l, n) → Noted l n

/-- An operation that comes to nothing new. -/
theorem Linear.skip (h : Linear t₀ w ls es) (hi : ls i = some (l, n)) {l' : Loc} {n' : Note}
    (htable : (World.exec E i o w).2.db.table = w.db.table) (hcall : n'.call = n.call) (hmade : n'.made = n.made)
    (hn : Noted l' n') : Linear t₀ (World.exec E i o w).2 (update ls i (some (l', n'))) es where
  path := htable ▸ h.path
  aligned := h.aligned.skip i
  entries e he := by
    by_cases hei : e.tid = i
    · obtain ⟨l₁, n₁, hl₁, hop, hout⟩ := h.entries e he
      rw [hei, hi] at hl₁
      cases hl₁
      exact ⟨l', n', by rw [hei, Function.update_self], by rw [hcall]; exact hop, by rw [hmade]; exact hout⟩
    · rw [Function.update_of_ne hei]
      exact h.entries e he
  made j l₁ n₁ hj hne := by
    rcases update_some hj with ⟨rfl, e⟩ | ⟨-, hj⟩
    · cases e
      exact h.made j l n hi (hmade ▸ hne)
    · exact h.made j l₁ n₁ hj hne
  noted j l₁ n₁ hj := by
    rcases update_some hj with ⟨-, e⟩ | ⟨-, hj⟩
    · cases e
      exact hn
    · exact h.noted j l₁ n₁ hj

/-- The operation that a request comes to something with. -/
theorem Linear.act (h : Linear t₀ w ls es) (hi : ls i = some (l, n)) {l' : Loc} {n' : Note} {op : Operation} {out : Outcome}
    (hnone : n.made = none) (hcall : n'.call = n.call) (hmade : n'.made = some out) (hop : n.call.operation = some op)
    (hstep : Step w.db.table.board op out (World.exec E i o w).2.db.table.board) (hn : Noted l' n') :
    Linear t₀ (World.exec E i o w).2 (update ls i (some (l', n'))) (⟨w.log.length, i, op, out⟩ :: es) := by
  have hfree : ∀ e ∈ es, e.tid ≠ i := by
    intro e he hei
    obtain ⟨l₁, n₁, hl₁, -, hout⟩ := h.entries e he
    rw [hei, hi] at hl₁
    cases hl₁
    rw [hnone] at hout
    cases hout
  refine ⟨.cons _ h.path hstep, ?_, fun e he => ?_, fun j l₁ n₁ hj hne => ?_, fun j l₁ n₁ hj => ?_⟩
  · have := h.aligned.act hfree op out
    rw [performers, List.length_map] at this
    exact this
  · rcases List.mem_cons.mp he with rfl | he
    · exact ⟨l', n', Function.update_self .., by rw [hcall]; exact hop, hmade⟩
    · rw [Function.update_of_ne (hfree e he)]
      exact h.entries e he
  · rcases update_some hj with ⟨rfl, e⟩ | ⟨-, hj⟩
    · exact ⟨_, List.mem_cons_self, rfl⟩
    · obtain ⟨e, he, htid⟩ := h.made j l₁ n₁ hj hne
      exact ⟨e, List.mem_cons_of_mem _ he, htid⟩
  · rcases update_some hj with ⟨-, e⟩ | ⟨-, hj⟩
    · cases e
      exact hn
    · exact h.noted j l₁ n₁ hj

omit [Platform] in
/-- A statement that fails is the database's failure. -/
theorem dbOp_broken {α : Type} (stmt : Db → Except Exc α × Db) (hstmt : ∀ e, (stmt w.db).1 = .error e → Broken e) {e : Exc}
    (h : (w.dbOp E stmt).1 = .error e) : Broken e := by
  rcases World.dbOp_cases (E := E) (w := w) stmt with ⟨e', h'⟩ | h'
  · rw [World.dbOp] at h
    split at h
    · cases h
      exact ⟨_, rfl⟩
    · exact hstmt e h
  · rw [h'] at h
    exact hstmt e h

theorem genuine_exec (o : Op) : Genuine o (World.exec E i o w).1 := by
  cases o with
  | insert d =>
    intro row hrow
    rcases World.dbOp_cases (E := E) (w := w) (World.insertStmt i (E.utc w.ticks 0) (E.utc w.ticks 1) d) with ⟨e, h⟩ | h
    · rw [show (World.exec E i (.insert d) w).1 = .error e from congrArg Prod.fst h] at hrow
      cases hrow
    · have hstmt : (World.insertStmt i (E.utc w.ticks 0) (E.utc w.ticks 1) d w.db).1 = .ok row := by
        rw [← hrow]
        exact (congrArg Prod.fst h).symm
      rw [World.insertStmt] at hstmt
      split at hstmt
      · cases hstmt
      · rename_i c hc
        obtain ⟨by_, -, hc⟩ := Option.map_eq_some_iff.mp hc
        have hcr : c = row := by
          split at hstmt
          · split at hstmt
            · cases hstmt
            · cases hstmt
              rfl
          · cases hstmt
        rw [← hcr, ← hc]
        exact ⟨rfl, rfl, rfl⟩
  | select q =>
    refine fun e h => dbOp_broken (World.selectStmt i q) (fun e' h' => ?_) h
    rw [World.selectStmt] at h'
    split at h'
    · cases h'
    · cases h'
      exact ⟨_, rfl⟩
  | selectForUpdate id =>
    refine fun e h => dbOp_broken (World.selectForUpdateStmt i id) (fun e' h' => ?_) h
    rw [World.selectForUpdateStmt] at h'
    split at h' <;> cases h'
  | updateStatus id s => exact fun e h => dbOp_broken _ (fun e' h' => by cases h') h
  | commit => exact fun e h => dbOp_broken _ (fun e' h' => by cases h') h
  | _ => trivial

/-- A locked row is the one that is asked for; an answer of none means that there is none. -/
theorem selectForUpdate_find {id : Uuid} {r : Option Complaint} (h : (World.exec E i (.selectForUpdate id) w).1 = .ok r) :
    (w.db.view i).find id = r := by
  rcases World.dbOp_cases (E := E) (w := w) (World.selectForUpdateStmt i id) with ⟨e, h'⟩ | h'
  · rw [show (World.exec E i (.selectForUpdate id) w).1 = .error e from congrArg Prod.fst h'] at h
    cases h
  · have h : (World.selectForUpdateStmt i id w.db).1 = .ok r := (congrArg Prod.fst h').symm.trans h
    rw [World.selectForUpdateStmt] at h
    split at h
    · rename_i hfind
      cases h
      exact hfind
    · rename_i row hfind
      cases h
      exact hfind

omit [Platform] in
/-- Only an answer that settles what the call comes to makes something. -/
theorem note_quiet (ho : o ≠ .commit) (hbyId : ∀ id, o ≠ .select (.byId id)) (hlock : ∀ id, o ≠ .selectForUpdate id) (r : o.Ans) :
    (note n o r).call = n.call ∧ (note n o r).made = n.made := by
  cases o with
  | select q =>
    cases q with
    | byId id => exact absurd rfl (hbyId id)
    | _ => exact ⟨rfl, rfl⟩
  | selectForUpdate id => exact absurd rfl (hlock id)
  | commit => exact absurd rfl ho
  | insert d => cases r <;> exact ⟨rfl, rfl⟩
  | updateStatus id s => cases r <;> exact ⟨rfl, rfl⟩
  | _ => exact ⟨rfl, rfl⟩

variable {A : Option Nat → Prop} {l' : Loc}

/-- A commit takes the board's step that was waiting. -/
theorem step_commit (hf : Fits t₀ w.db i l) (hp : l.phase.pending ≠ []) (hn : Noted l n) :
    ∃ op out, n.call.operation = some op ∧ n.waiting = some out ∧
      Step w.db.table.board op out (w.db.table.after l.phase.pending).board := by
  have hsees := hf.session.sees
  cases hphase : l.phase with
  | moved row s at_ =>
    rw [hphase] at hsees
    have hw := hf.writes _ (by rw [hphase]; rfl)
    rw [← hn.call] at hw
    generalize hcall : n.call = call at hw
    cases hw with
    | moved id s at_ =>
      refine ⟨_, _, rfl, hn.waiting _ (by rw [hphase]; rfl), ?_⟩
      show Step _ _ _ (w.db.table.setStatus row.id s at_).board
      rw [board_setStatus hsees.1]
      exact .moved row s at_ hsees.1 hsees.2
  | inserted row =>
    rw [hphase] at hsees
    have hw := hf.writes _ (by rw [hphase]; rfl)
    rw [← hn.call] at hw
    generalize hcall : n.call = call at hw
    cases hw with
    | created data row =>
      refine ⟨_, _, rfl, hn.waiting _ (by rw [hphase]; rfl), ?_⟩
      show Step _ _ _ (w.db.table.insert row).board
      rw [board_insert hsees.1]
      exact .submitted data row hsees.1 hsees.2 (hn.holds row data hphase hcall)
  | _ =>
    rw [hphase] at hp
    exact absurd rfl hp

/-- Each operation of a request is a step of the board, or none. -/
theorem board_exec (hinv : Inv (fun _ => A) t₀ w (firsts ls)) (h : Linear t₀ w ls es) (hi : ls i = some (l, n))
    (hcan : Performs l o) (hnc : NoteCan n o) (hm : Moves l o (World.exec E i o w).1 l') :
    ∃ es', Linear t₀ (World.exec E i o w).2 (update ls i (some (l', note n o (World.exec E i o w).1))) es' := by
  have hfits := hinv.fits i l (firsts_some hi)
  have hnoted := h.noted i l n hi
  have hn' := noted_step hnoted hcan hnc (genuine_exec (E := E) (i := i) (w := w) o) hm
  have hidle : l.phase = .idle → w.db.view i = w.db.table := fun hp => view_idle hfits.session (by rw [hp]; rfl)
  by_cases hcommit : o = .commit
  · subst hcommit
    rcases World.commit_cases (E := E) (i := i) (w := w) with ⟨hdb, e, hexec⟩ | ⟨hexec, hdb⟩
    · rw [hexec] at hn' ⊢
      exact ⟨es, h.skip hi (by rw [hdb]) rfl rfl hn'⟩
    · obtain ⟨op, out, hop, hout, hstep⟩ := step_commit hfits hcan hnoted
      have htable : (World.exec E i .commit w).2.db.table = w.db.table.after l.phase.pending := by
        have hne : (w.db.pending i).isEmpty = false := by
          rw [hfits.session.pending]
          have hpending : l.phase.pending ≠ [] := hcan
          simpa using hpending
        rw [hdb, Db.commit, if_neg (by rw [hne]; decide)]
        show w.db.view i = _
        rw [Db.view, hfits.session.pending]
      rw [hexec] at hn' ⊢
      rw [← htable] at hstep
      exact ⟨_, h.act hi hnc rfl hout hop hstep hn'⟩
  · have htable := World.exec_table (E := E) (i := i) (w := w) hcommit
    by_cases hbyId : ∃ id, o = .select (.byId id)
    · obtain ⟨id, rfl⟩ := hbyId
      obtain ⟨hnone, hcall⟩ := hnc
      have hop : n.call.operation = some (.look id) := by rw [hcall]; rfl
      rcases (World.select_cases (E := E) (i := i) (w := w) (.byId id)).2 with ⟨e, hexec⟩ | ⟨-, hexec⟩
      · rw [hexec] at hn' ⊢
        exact ⟨es, h.skip hi htable rfl rfl hn'⟩
      · rw [hidle hcan] at hexec
        have hfind : (Query.byId id).eval w.db.table = w.db.table.find id := rfl
        cases hrow : w.db.table.find id with
        | none =>
          rw [hexec, hfind, hrow] at hn' ⊢
          exact ⟨_, h.act hi hnone rfl rfl hop (by rw [htable]; exact .unseen id hrow) hn'⟩
        | some row =>
          obtain rfl : row.id = id := (Table.find_some hrow).2
          rw [hexec, hfind, hrow] at hn' ⊢
          exact ⟨_, h.act hi hnone rfl rfl hop (by rw [htable]; exact .looked row hrow) hn'⟩
    · by_cases hlock : ∃ id, o = .selectForUpdate id
      · obtain ⟨id, rfl⟩ := hlock
        obtain ⟨hnone, -, target, hcall⟩ := hnc
        have hop : n.call.operation = some (.move id target) := by rw [hcall]; rfl
        have hview := hidle hcan.1
        cases hr : (World.exec E i (.selectForUpdate id) w).1 with
        | error e =>
          rw [hr] at hn'
          exact ⟨es, h.skip hi htable rfl rfl hn'⟩
        | ok found =>
          have hfind := selectForUpdate_find hr
          rw [hview] at hfind
          rw [hr] at hn'
          cases found with
          | none => exact ⟨_, h.act hi hnone rfl rfl hop (by rw [htable]; exact .unmoved id target hfind) hn'⟩
          | some row =>
            obtain rfl : row.id = id := (Table.find_some hfind).2
            rw [show note n (.selectForUpdate row.id) (.ok (some row)) = _ from noteLocked_eq hcall row] at hn' ⊢
            by_cases hstep : canTransition row.status target = true
            · rw [if_pos hstep] at hn' ⊢
              exact ⟨es, h.skip hi htable rfl rfl hn'⟩
            · rw [if_neg hstep] at hn' ⊢
              exact ⟨_, h.act hi hnone rfl rfl hop (by rw [htable]; exact .refused row target hfind (by simpa using hstep)) hn'⟩
      · have hq := note_quiet (n := n) hcommit (fun id e => hbyId ⟨id, e⟩) (fun id e => hlock ⟨id, e⟩) (World.exec E i o w).1
        exact ⟨es, h.skip hi htable hq.1 hq.2 hn'⟩

/-! ## Runs -/

omit [Platform] in
/-- Nothing is known of a session that has done nothing, but that. -/
theorem phase_idle {db : Db} {p : Phase} (h : Session db i .idle) (hp : Session db i p) : p = .idle := by
  cases p with
  | idle => rfl
  | locked row => cases (h.lock row.id).mp ((hp.lock row.id).mpr rfl)
  | moved row s at_ => cases (h.lock row.id).mp ((hp.lock row.id).mpr rfl)
  | inserted row => cases (h.lock row.id).mp ((hp.lock row.id).mpr rfl)
  | done ws t => cases h.commits.symm.trans hp.commits

omit [Platform] in
theorem noted_begun {c : App × Call} (hcall : l.call = c) (hphase : l.phase = .idle) : Noted l (noteBegun c) where
  call := by rw [hcall]; rfl
  waits _ := hphase
  held row h := by rw [hphase] at h; cases h
  waiting out h := by rw [hphase] at h; cases h
  holds row data h := by rw [hphase] at h; cases h
  looked _ row h := by cases h

omit [Platform] in
theorem Linear.start (h : Linear t₀ w ls es) (hi : ls i = none) {c : App × Call} (hn : Noted l (noteBegun c)) :
    Linear t₀ w (update ls i (some (l, noteBegun c))) es where
  path := h.path
  aligned := h.aligned
  entries e he := by
    obtain ⟨l₁, n₁, hl₁, hn₁⟩ := h.entries e he
    have hne : e.tid ≠ i := by
      intro hei
      rw [hei, hi] at hl₁
      cases hl₁
    exact ⟨l₁, n₁, by rw [Function.update_of_ne hne]; exact hl₁, hn₁⟩
  made j l₁ n₁ hj hne := by
    rcases update_some hj with ⟨-, e⟩ | ⟨-, hj⟩
    · cases e
      exact absurd rfl hne
    · exact h.made j l₁ n₁ hj hne
  noted j l₁ n₁ hj := by
    rcases update_some hj with ⟨-, e⟩ | ⟨-, hj⟩
    · cases e
      exact hn
    · exact h.noted j l₁ n₁ hj

/-- The requests with their notes. -/
def annotated (E : Env) (t₀ : Table) : Outline (machine E) (App × Call) Reply (Loc × Note) :=
  (outline E (fun _ => True) t₀).beside notes NotePost fun w ls => ∃ es, Linear t₀ w ls es

theorem annotated_sound (E : Env) (t₀ : Table) : (annotated E t₀).Sound serve := by
  refine Outline.beside_sound (outline_sound E (fun _ => trivial) t₀) noteBegun notes_serve ?_ ?_
  · intro w ls i c hinv hes hi
    obtain ⟨es, h⟩ := hes
    have hidle := hinv.1.idle i (firsts_none hi)
    obtain ⟨l, hinv', hb, hf⟩ := (outline_sound E (fun _ => trivial) t₀).start c hinv (firsts_none hi)
    have hphase := phase_idle hidle (hinv'.1.fits i l (Function.update_self ..)).session
    exact ⟨l, hinv', hb, hf, es, h.start hi (noted_begun hb hphase)⟩
  · intro w ls i l n o l' hinv hes hi hcan hnc hen hm _
    obtain ⟨es, h⟩ := hes
    obtain ⟨es', h'⟩ := board_exec (E := E) hinv.1 h hi hcan hnc hm
    exact ⟨_, ⟨genuine_exec (E := E) o, rfl⟩, es', h'⟩

/-- The deeds are what the requests have done and been answered. -/
structure Explains (t₀ : Table) (P : Pool (machine E) (App × Call) Reply) (es : List (Deed Operation Outcome)) : Prop where
  path : Path Step t₀.board es P.shared.db.table.board
  aligned : Aligned (performers P.shared) es
  asked : ∀ e ∈ es, ∃ t, P.threads e.tid = some t ∧ t.call.2.operation = some e.op
  returned : ∀ i c reply, P.threads i = some ⟨c, .ret reply⟩ → c.2.operation ≠ none →
    ∃ e ∈ es, e.tid = i ∧ e.out.reply = .ok reply
  /-- A request that fails came out so, or did nothing; if it asked for a row, the database failed. -/
  raised : ∀ i c x, P.threads i = some ⟨c, .raise x⟩ → (∃ e ∈ es, e.tid = i ∧ e.out.reply = .error x) ∨
    (∀ e ∈ es, e.tid ≠ i) ∧ ((∃ id, c.2.operation = some (.look id)) ∨ (∃ id s, c.2.operation = some (.move id s)) → Broken x)

omit [Platform] in
theorem linear_initial (h₀ : w.db = opened t₀) (hlog : w.log = []) : Linear t₀ w (fun _ => none) [] where
  path := by
    rw [h₀]
    exact .nil
  aligned := by
    rw [performers, hlog]
    exact .nil
  entries e he := by cases he
  made i l n hi := by cases hi
  noted i l n hi := by cases hi

variable {P : Pool (machine E) (App × Call) Reply} {c : App × Call}

omit [Platform] in
/-- A deed is its request's. -/
theorem Linear.own (h : Linear t₀ w ls es) (hl : ls i = some (l, n)) {e : Deed Operation Outcome} (he : e ∈ es) (htid : e.tid = i) :
    l.call.2.operation = some e.op ∧ n.made = some e.out := by
  obtain ⟨l', n', hl', hop, hout⟩ := h.entries e he
  rw [htid, hl] at hl'
  cases hl'
  rw [← (h.noted i l n hl).call]
  exact ⟨hop, hout⟩

omit [Platform] in
theorem Linear.came (h : Linear t₀ w ls es) (hl : ls i = some (l, n)) {out : Outcome} (hmade : n.made = some out) :
    ∃ e ∈ es, e.tid = i ∧ e.out = out := by
  obtain ⟨e, he, htid⟩ := h.made i l n hl (by rw [hmade]; simp)
  exact ⟨e, he, htid, Option.some.inj ((h.own hl he htid).2.symm.trans hmade)⟩

omit [Platform] in
/-- A request that has returned has come to what it returns. -/
theorem Linear.returned (h : Linear t₀ w ls es) (hl : ls i = some (l, n)) {reply : Reply} (hpost : NotePost l.call n (.ok reply))
    (hop : l.call.2.operation ≠ none) : ∃ e ∈ es, e.tid = i ∧ e.out.reply = .ok reply := by
  obtain ⟨op, hop⟩ := Option.ne_none_iff_exists'.mp hop
  unfold NotePost at hpost
  rw [hop] at hpost
  obtain ⟨row, rfl, hmade⟩ := hpost
  obtain ⟨e, he, htid, hout⟩ := h.came hl hmade
  exact ⟨e, he, htid, by rw [hout]; rfl⟩

omit [Platform] in
/-- A request that has failed came out so, or has done nothing. -/
theorem Linear.raised (h : Linear t₀ w ls es) (hl : ls i = some (l, n)) {x : Exc} (hphase : l.phase = .idle)
    (hpost : NotePost l.call n (.error x)) : (∃ e ∈ es, e.tid = i ∧ e.out.reply = .error x) ∨
      (∀ e ∈ es, e.tid ≠ i) ∧
        ((∃ id, l.call.2.operation = some (.look id)) ∨ (∃ id s, l.call.2.operation = some (.move id s)) → Broken x) := by
  rcases hpost with ⟨hmade, hbroken⟩ | ⟨out, hmade, hreply⟩ | ⟨⟨row, hmade⟩, hget⟩
  · refine .inr ⟨fun e he htid => ?_, hbroken⟩
    have hout := (h.own hl he htid).2
    rw [hmade] at hout
    cases hout
  · obtain ⟨e, he, htid, rfl⟩ := h.came hl hmade
    exact .inl ⟨e, he, htid, hreply⟩
  · -- what was shown to a writer is committed, and it does not fail then
    have hopen : l.phase.Open := fun ws t e => by rw [hphase] at e; cases e
    have hnoted := h.noted i l n hl
    obtain ⟨id, hcall⟩ := hnoted.looked hopen row hmade
    rw [hnoted.call] at hcall
    exact absurd hcall (hget id)

/-- The deeds explain how the requests have ended. -/
theorem Linear.explains {ls : Nat → Option (Loc × Note)} (hP : (annotated E t₀).At P ls) (h : Linear t₀ P.shared ls es) : Explains t₀ P es where
  path := h.path
  aligned := h.aligned
  asked e he := by
    obtain ⟨l, n, hl, -, -⟩ := h.entries e he
    cases ht : P.threads e.tid with
    | none =>
      rw [hP.idle e.tid ht] at hl
      cases hl
    | some t =>
      obtain ⟨ln, hln, hb, -⟩ := hP.busy e.tid t ht
      rw [hl] at hln
      cases hln
      refine ⟨t, rfl, ?_⟩
      rw [← show l.call = t.call from hb]
      exact (h.own hl he rfl).1
  returned i c reply ht hop := by
    obtain ⟨⟨l, n⟩, hl, hb, -, hpost⟩ := hP.busy i _ ht
    obtain rfl : l.call = c := hb
    exact h.returned hl hpost hop
  raised i c x ht := by
    obtain ⟨⟨l, n⟩, hl, hb, hphase, hpost⟩ := hP.busy i _ ht
    obtain rfl : l.call = c := hb
    exact h.raised hl hphase hpost

/-- The requests are steps of the board that take effect one by one; one that has ended
    before another starts takes effect before it. -/
def Linearizable (E : Env) (t₀ : Table) (w₀ : World) (P : Pool (machine E) (App × Call) Reply) : Prop :=
  ∃ es, Explains t₀ P es ∧ ∀ P₁, RequestRun E w₀ P₁ → Pool.Steps serve P₁ P → ∀ i j t, P₁.threads i = some t → t.prog.Ended →
    P₁.threads j = none → ∀ e ∈ es, ∀ e' ∈ es, e.tid = i → e'.tid = j → e.at_ < e'.at_

theorem annotated_run {w₀ : World} (h₀ : w₀.db = opened t₀) (hlog : w₀.log = []) (hP : RequestRun E w₀ P) :
    (annotated E t₀).Holds P := by
  have hinv : Inv (fun _ _ => True) t₀ w₀ fun _ => none := inv_initial h₀ fun _ => trivial
  exact Outline.keeps (annotated_sound E t₀) hP
    (Outline.fresh_holds ⟨⟨hinv, fun _ _ h => by cases h⟩, [], linear_initial h₀ hlog⟩)

/-- Whatever the interleaving and whatever fails. -/
theorem requests_linearize {w₀ : World} (h₀ : w₀.db = opened t₀) (hlog : w₀.log = []) (hP : RequestRun E w₀ P) :
    Linearizable E t₀ w₀ P := by
  obtain ⟨ls, hAt⟩ := annotated_run h₀ hlog hP
  obtain ⟨es, hes⟩ := hAt.inv.2
  refine ⟨es, hes.explains hAt, fun P₁ hP₁ hs i j t hi hend hj e he e' he' htid htid' => ?_⟩
  have hlog₀ : performers w₀ = [] := by rw [performers, hlog]; rfl
  exact hes.aligned.realtime (stamps E) hlog₀ hP₁ hs hi hend hj he he' htid htid'

end

/-! ## Visitors -/

/-- Two operators and a reader on one complaint, and a reader of one that is not there. -/
def visitors : Pool (@machine .ascii (.calm fun _ _ _ => .error .triageTimeout)) (App × Call) Reply :=
  Pool.schedule (@serve .ascii)
    (.start 0 (replica, .changeStatus 7 .inProgress) :: .start 1 (replica, .changeStatus 7 .inProgress) ::
      .start 2 (replica, .get 7) :: .start 3 (replica, .get 8) ::
      (List.replicate 12 [.exec 0, .exec 1, .exec 2, .exec 3]).flatten)
    (.fresh (.initial potholes))

theorem requests_linearize_visitors : (visitors.result 0).isSome = true ∧ visitors.result 1 = none ∧
    visitors.result 2 = some (.complaint pothole) ∧ @Linearizable .ascii _ potholes (.initial potholes) visitors :=
  ⟨by decide +kernel, by decide +kernel, by decide +kernel,
    @requests_linearize .ascii _ _ _ (.initial potholes) rfl rfl (Pool.schedule_steps _ _ _)⟩

end Request

end CivicPulse
