/-
  CivicPulse.Runs.Seeders — what a seeder and the other clients of its database may do next.

  A seeder takes the advisory lock, looks each of its rows up and inserts those that are not
  there, commits, and with that gives the lock back. The other clients submit complaints and
  change statuses.
  - `protocol`: the operations of a client in a local state, and how an answer moves it. Of a
    request it follows the id that was generated and the one that was locked.
  - `code_follows`: every client keeps to it and ends as `Post` says: a seeder returns the
    number of its insertions after its commit, or a statement has failed.
-/

import CivicPulse.Services.Footprint
import CivicPulse.Services.Seed

namespace CivicPulse.Seeding

open Text Lang

/-! ## Clients -/

inductive Client where
  | request (app : App) (call : Call)
  | seeder

inductive Result where
  | reply (r : Reply)
  | inserted (n : Nat)

section

variable [Platform] (uuid5 : Uuid → Str → Uuid)

def code : Client → Code Result
  | .request app call => Result.reply <$> serve (app, call)
  | .seeder => Result.inserted <$> Seed.main uuid5

end

/-! ## Local states -/

/-- The key of `lockForSeed`. -/
def lockKey : Int := 727274002

inductive Loc where
  /-- The id it generated, and the one of the row it locked. -/
  | request (fresh found : Option Uuid)
  | waiting
  | locked
  /-- The rows still to look at, whether the first was not found, and the rows inserted. -/
  | seeding (now : Int) (todo : List Complaint) (missed : Bool) (inserted : List Complaint)
  | committed (n : Nat)
  | closed (n : Option Nat)

namespace Loc

def seeds : Loc → Bool
  | request _ _ => false
  | _ => true

/-- The seeder holds the advisory lock. -/
def holds : Loc → Bool
  | locked | seeding _ _ _ _ => true
  | _ => false

end Loc

/-! ## The protocol -/

/-- What a client may perform. -/
def Performs : Loc → Op → Prop
  | .request fresh found, o => match o with
    | .insert d => fresh = some d.id
    | .updateStatus id _ => found = some id
    | .insertRow _ | .advisoryLock _ => False
    | _ => True
  | .waiting, o => o = .advisoryLock lockKey ∨ o = .close
  | .locked, o => o = .utcnow ∨ o = .close
  | .seeding _ todo missed _, o => match o with
    | .select (.byId id) => missed = false ∧ ∃ c rest, todo = c :: rest ∧ c.id = id
    | .insertRow c => missed = true ∧ ∃ rest, todo = c :: rest
    | .commit => todo = []
    | .close => True
    | _ => False
  | .committed _, o => o = .close
  | .closed _, _ => False

/-- Some statement met with a failure of the connection. -/
def Faulty (E : Env) : Prop := ∃ n cls, E.dbFault n = some cls

variable [Platform] (E : Env) (uuid5 : Uuid → Str → Uuid)

/-- How an answer moves it. -/
def Moves (l : Loc) (o : Op) (r : o.Ans) (l' : Loc) : Prop :=
  match l with
  | .request fresh found => match o, r with
    | .uuid4, id => l' = .request (some id) found
    | .selectForUpdate id, .ok (some row) => row.id = id ∧ l' = .request fresh (some id)
    | _, _ => l' = .request fresh found
  | .waiting => match o, r with
    | .advisoryLock _, .ok _ => l' = .locked
    | .advisoryLock _, .error _ => Faulty E ∧ l' = .waiting
    | _, _ => l' = .closed none
  | .locked => match o, r with
    | .utcnow, now => ∃ rows, Seed.buildSeedComplaints uuid5 now = .ok rows ∧ l' = .seeding now rows false []
    | _, _ => l' = .closed none
  | .seeding now todo missed inserted => match o, r with
    | .select (.byId _), .ok none => l' = .seeding now todo true inserted
    | .select (.byId _), .ok (some _) => l' = .seeding now todo.tail false inserted
    | .insertRow c, .ok _ => l' = .seeding now todo.tail false (inserted ++ [c])
    | .commit, .ok _ => l' = .committed inserted.length
    | .close, _ => l' = .closed none
    | _, _ => Faulty E ∧ l' = .seeding now todo missed inserted
  | .committed n => l' = .closed (some n)
  | .closed _ => False

def protocol : Protocol sig Loc := ⟨Performs, Moves E uuid5⟩

/-- How a client ends. -/
def Post (c : Client) (l : Loc) : Except Exc Result → Prop
  | .ok (.inserted n) => l = .closed (some n)
  | .ok (.reply _) => c ≠ .seeder
  | .error _ => c = .seeder → l = .closed none ∧ Faulty E

section

variable {E uuid5} {α : Type} {fresh found : Option Uuid}

/-! ## Requests -/

/-- An operation that is not followed. -/
def Plain : Op → Prop
  | .insert _ | .updateStatus _ _ | .insertRow _ | .advisoryLock _ | .uuid4 | .selectForUpdate _ => False
  | _ => True

omit [Platform] in
theorem plain_ofTriage {key : Str} {o : Op} (h : OfTriage key o) : Plain o := by
  cases o with
  | insert d => exact h
  | updateStatus id s => exact h
  | insertRow c => exact h
  | advisoryLock k => exact h
  | uuid4 => exact h
  | selectForUpdate id => exact h
  | _ => trivial

theorem follows_plain {Q : Loc → Except Exc α → Prop} {p : Code α} (hp : p.Uses Plain) (hQ : ∀ r, Q (.request fresh found) r) :
    Follows (protocol E uuid5) Q (.request fresh found) p := by
  refine Follows.of_uses ?_ ?_ hQ hp
  · intro o ho
    cases o with
    | insert d => cases ho
    | updateStatus id s => cases ho
    | insertRow c => cases ho
    | advisoryLock k => cases ho
    | _ => trivial
  · intro o ho r l' hs
    cases o with
    | uuid4 => cases ho
    | selectForUpdate id => cases ho
    | _ => exact hs

omit [Platform] in
theorem plain_invalidate : StatsService.invalidate.Uses Plain := JsonCache.uses_delete trivial fun _ _ => trivial

theorem follows_create {Q : Loc → Except Exc Complaint → Prop} (hQ : ∀ fresh found r, Q (.request fresh found) r)
    (svc : TriageService) (data : ComplaintCreate) :
    Follows (protocol E uuid5) Q (.request fresh found) (ComplaintService.create svc data) := by
  refine ⟨trivial, fun id l' hs => ?_⟩
  obtain rfl : l' = .request (some id) found := hs
  refine Follows.bind (follows_plain (Prog.uses_mono (fun _ => plain_ofTriage) (triage_ofTriage svc _ _ _)) fun r => ?_)
  cases r with
  | error e => exact hQ _ _ _
  | ok o =>
    rcases hr : o.result with _ | result
    · simp only [hr]
      exact hQ _ _ _
    · simp only [hr]
      refine ⟨rfl, fun r l' hs => ?_⟩
      obtain rfl : l' = .request (some id) found := hs
      refine follows_plain (Prog.uses_bind (uses_ofExcept r) fun _ => Prog.uses_bind ⟨trivial, fun r => uses_ofExcept r⟩ fun _ =>
        Prog.uses_bind plain_invalidate fun _ => trivial) fun r => hQ _ _ _

theorem follows_changeStatus {Q : Loc → Except Exc Complaint → Prop} (hQ : ∀ fresh found r, Q (.request fresh found) r)
    (id : Uuid) (target : Status) :
    Follows (protocol E uuid5) Q (.request fresh found) (ComplaintService.changeStatus id target) := by
  refine ⟨trivial, fun r l' hs => ?_⟩
  rcases r with e | _ | row
  · obtain rfl : l' = .request fresh found := hs
    exact hQ _ _ _
  · obtain rfl : l' = .request fresh found := hs
    exact hQ _ _ _
  · obtain ⟨rfl, rfl⟩ := hs
    show Follows _ _ _ (if canTransition row.status target then _ else _)
    split
    · refine ⟨rfl, fun r l' hs => ?_⟩
      obtain rfl : l' = .request fresh (some row.id) := hs
      refine follows_plain (Prog.uses_bind (Prog.uses_bind (uses_ofExcept r) fun _ => trivial) fun _ =>
        Prog.uses_bind ⟨trivial, fun r => uses_ofExcept r⟩ fun _ => Prog.uses_bind plain_invalidate fun _ => trivial)
        fun r => hQ _ _ _
    · exact follows_plain ⟨trivial, fun _ => trivial⟩ fun r => hQ _ _ _

theorem follows_service {Q : Loc → Except Exc Reply → Prop} (hQ : ∀ fresh found r, Q (.request fresh found) r) (app : App)
    (call : Call) : Follows (protocol E uuid5) Q (.request fresh found) (service app call) := by
  cases call with
  | create data =>
    refine Follows.bind (follows_create (fun fresh found r => ?_) app.triage data)
    cases r <;> exact hQ _ _ _
  | changeStatus id target =>
    refine Follows.bind (follows_changeStatus (fun fresh found r => ?_) id target)
    cases r <;> exact hQ _ _ _
  | stats =>
    exact follows_plain (Prog.uses_bind (StatsService.uses_get (Repository.uses_aggregates trivial fun _ => trivial)
      trivial trivial (fun _ _ => trivial)
      (fun _ _ => trivial) _) fun _ => trivial) (hQ _ _)
  | get id => exact follows_plain (Prog.uses_bind (ComplaintService.uses_get (fun _ => trivial) id) fun _ => trivial) (hQ _ _)
  | list f p s =>
    exact follows_plain (Prog.uses_bind (ComplaintService.uses_list (fun _ => trivial) f p s) fun _ => trivial) (hQ _ _)
  | invalid errors => exact hQ _ _ _

theorem follows_serve {Q : Loc → Except Exc Reply → Prop} (hQ : ∀ fresh found r, Q (.request fresh found) r) (c : App × Call) :
    Follows (protocol E uuid5) Q (.request fresh found) (serve c) := by
  refine Follows.bind (Follows.tryCatch (Follows.tryCatch (follows_service (fun fresh found r => ?_) c.1 c.2)))
  cases r with
  | ok a => exact follows_plain ⟨trivial, fun _ => trivial⟩ fun _ => hQ _ _ _
  | error e =>
    refine ⟨trivial, fun _ l' hs => ?_⟩
    obtain rfl : l' = .request fresh found := hs
    refine ⟨trivial, fun _ l' hs => ?_⟩
    obtain rfl : l' = .request fresh found := hs
    exact hQ _ _ _

/-! ## Seeders -/

/-- A seeder that has not committed. -/
def Loc.isOpen : Loc → Bool
  | waiting | locked | seeding _ _ _ _ => true
  | _ => false

/-- All rows were looked at and so many inserted; or a statement has failed. -/
def Looked (E : Env) (l : Loc) : Except Exc Nat → Prop
  | .ok n => ∃ now inserted, l = .seeding now [] false inserted ∧ n = inserted.length
  | .error _ => Faulty E ∧ l.isOpen = true

/-- The transaction is committed; or a statement has failed. -/
def Seeded (E : Env) (l : Loc) : Except Exc Nat → Prop
  | .ok n => l = .committed n
  | .error _ => Faulty E ∧ l.isOpen = true

theorem follows_rows (now : Int) (todo inserted : List Complaint) :
    Follows (protocol E uuid5) (Looked E) (.seeding now todo false inserted)
      (todo.foldlM (fun n c => do return n + (← Repository.addIfAbsent c).toNat) inserted.length) := by
  induction todo generalizing inserted with
  | nil => exact ⟨now, inserted, rfl, rfl⟩
  | cons c todo ih =>
    refine ⟨⟨rfl, c, todo, rfl, rfl⟩, fun r l' hs => ?_⟩
    rcases r with e | _ | row
    · obtain ⟨hf, rfl⟩ := hs
      exact ⟨hf, rfl⟩
    · obtain rfl : l' = .seeding now (c :: todo) true inserted := hs
      refine ⟨⟨rfl, todo, rfl⟩, fun r l' hs => ?_⟩
      cases r with
      | error e =>
        obtain ⟨hf, rfl⟩ := hs
        exact ⟨hf, rfl⟩
      | ok u =>
        obtain rfl : l' = .seeding now todo false (inserted ++ [c]) := hs
        have h := ih (inserted ++ [c])
        rw [List.length_append, List.length_singleton] at h
        exact h
    · obtain rfl : l' = .seeding now todo false inserted := hs
      exact ih inserted

theorem follows_runSeed : Follows (protocol E uuid5) (Seeded E) .locked (Seed.runSeed uuid5) := by
  refine ⟨.inl rfl, fun now l' hs => ?_⟩
  show Follows _ _ _ (ofExcept (Seed.buildSeedComplaints uuid5 now) >>= _)
  generalize hbuild : Seed.buildSeedComplaints uuid5 now = built
  obtain ⟨rows, hrows, rfl⟩ := hs
  rw [show built = .ok rows from hbuild.symm.trans hrows, ofExcept_ok, Prog.ret_bind]
  refine Follows.bind (Follows.mono ?_ (follows_rows now rows []))
  intro l r hr
  cases r with
  | error e => exact hr
  | ok n =>
    obtain ⟨now, inserted, rfl, rfl⟩ := hr
    refine ⟨rfl, fun r l' hs => ?_⟩
    cases r with
    | error e =>
      obtain ⟨hf, rfl⟩ := hs
      exact ⟨hf, rfl⟩
    | ok u =>
      obtain rfl : l' = .committed inserted.length := hs
      rfl

theorem follows_main : Follows (protocol E uuid5) (fun l r => match r with
    | .ok n => l = .closed (some n)
    | .error _ => l = .closed none ∧ Faulty E) .waiting (Seed.main uuid5) := by
  refine Follows.bind (Follows.tryCatch (Follows.mono (Q := Seeded E) ?_ ?_))
  · intro l r hr
    cases r with
    | ok n =>
      obtain rfl : l = .committed n := hr
      exact ⟨rfl, fun _ l' hs => hs⟩
    | error e =>
      obtain ⟨hf, ho⟩ := hr
      cases l with
      | waiting => exact ⟨.inr rfl, fun _ l' hs => ⟨hs, hf⟩⟩
      | locked => exact ⟨.inr rfl, fun _ l' hs => ⟨hs, hf⟩⟩
      | seeding now todo missed inserted => exact ⟨trivial, fun _ l' hs => ⟨hs, hf⟩⟩
      | request fresh found => cases ho
      | committed n => cases ho
      | closed n => cases ho
  · refine ⟨.inl rfl, fun r l' hs => ?_⟩
    cases r with
    | error e =>
      obtain ⟨hf, rfl⟩ := hs
      exact ⟨hf, rfl⟩
    | ok u =>
      obtain rfl : l' = .locked := hs
      exact follows_runSeed

/-- The local state a client starts in. -/
def begun : Client → Loc
  | .request _ _ => .request none none
  | .seeder => .waiting

theorem code_follows (c : Client) : Follows (protocol E uuid5) (Post E c) (begun c) (code uuid5 c) := by
  cases c with
  | request app call =>
    refine Follows.bind (follows_serve (fun fresh found r => ?_) (app, call))
    cases r with
    | ok a => exact nofun
    | error e => exact nofun
  | seeder =>
    refine Follows.bind (Follows.mono ?_ follows_main)
    intro l r hr
    cases r with
    | ok n => exact hr
    | error e => exact fun _ => hr

end

end CivicPulse.Seeding
