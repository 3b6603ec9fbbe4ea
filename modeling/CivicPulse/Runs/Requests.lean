/-
  CivicPulse.Runs.Requests — what one request may do next, given what it has done: its
  session's transaction, the figures it has read, the statistics it drops and caches.

  - `protocol`: which operations a request in a local state performs, and how an
    answer moves it.
  - `serve_follows`: every request keeps to it and ends as `Post` says. A status
    change ends well after committing one allowed step of its complaint, a submission
    after committing one new row, both with the statistics dropped; a request that fails
    has committed nothing.
-/

import CivicPulse.Lang.Pool
import CivicPulse.Services.Figures
import CivicPulse.Services.Footprint

namespace CivicPulse

open Text Lang

/-- A `SELECT` of `aggregates`. -/
def Query.isFigure : Query → Bool
  | .countAvg | .groupBy _ => true
  | _ => false

namespace Request

/-! ## Local states -/

/-- How far a request's transaction is. -/
inductive Phase where
  | idle
  | locked (row : Complaint)
  | moved (row : Complaint) (s : Status) (at_ : Int)
  | inserted (row : Complaint)
  | done (ws : List Write) (t : Table)

namespace Phase

/-- The writes that are not committed. -/
def pending : Phase → List Write
  | moved row s at_ => [.setStatus row.id s at_]
  | inserted row => [.insert row]
  | _ => []

/-- The row that is locked. -/
def lock : Phase → Option Uuid
  | locked row | moved row _ _ | inserted row => some row.id
  | _ => none

/-- What the committed table holds of the write. -/
def Stored (t : Table) : Phase → Prop
  | moved row s at_ => t.find row.id = some { row with status := s, updatedAt := at_ }
  | inserted row => t.find row.id = some row
  | _ => True

/-- After a rollback. -/
def released : Phase → Phase
  | done ws t => done ws t
  | _ => idle

@[simp] theorem released_released (p : Phase) : p.released.released = p.released := by cases p <;> rfl

/-- Nothing is committed. -/
def Open (p : Phase) : Prop := ∀ ws t, p ≠ done ws t

theorem Open.released {p : Phase} (h : p.Open) : p.released = idle := by
  cases p with
  | done ws t => exact absurd rfl (h ws t)
  | _ => rfl

end Phase

structure Loc where
  call : App × Call
  phase : Phase
  /-- The cached statistics were dropped. -/
  cleared : Bool
  /-- The figures read for statistics, newest first. -/
  reads : List Figure
  /-- What was read under the statistics' key. -/
  seen : Option Raw
  /-- The oldest version of the table in what was read, if that is known. -/
  base : Option Nat
  /-- The newest version whose writer had dropped the cache when the request began. -/
  floor : Nat

namespace Loc

def begun (c : App × Call) (floor : Nat) : Loc := ⟨c, .idle, false, [], none, none, floor⟩

def released (l : Loc) : Loc := { l with phase := l.phase.released }

@[simp] theorem released_released (l : Loc) : l.released.released = l.released := by simp [released]

@[simp] theorem released_phase (l : Loc) : l.released.phase = l.phase.released := rfl

end Loc

/-! ## The protocol -/

variable [Platform]

/-- The statistics a cached value holds. -/
def statsIn (raw : Raw) : Except Exc StatsOut := do StatsOut.modelValidate (← JsonCache.loadsRaw raw)

/-- What a request may perform. -/
def Performs (l : Loc) : Op → Prop
  | .get k => k = STATS_KEY → l.reads = []
  | .set k v _ => k = STATS_KEY → ∃ (f : Figures) (at_ : Int), l.reads = f.reads ∧ f.Small ∧ v = (f.stats at_).modelDump.dumps
  | .delete ks => STATS_KEY ∈ ks → ks = [STATS_KEY] ∧ ¬ l.phase.Open
  | .incr k | .pushTrim k _ _ => k ≠ STATS_KEY
  | .select .countAvg => l.phase = .idle ∧ l.reads = []
  | .select (.groupBy _) => l.phase = .idle ∧ l.reads ≠ []
  | .select _ => l.phase = .idle
  | .selectForUpdate id => l.phase = .idle ∧ ∃ target, l.call.2 = .changeStatus id target
  | .insert d => l.phase = .idle ∧ d.status = .open_ ∧ ∃ data, l.call.2 = .create data
  | .updateStatus id s => ∃ row, l.phase = .locked row ∧ row.id = id ∧ canTransition row.status s = true ∧
      l.call.2 = .changeStatus id s
  | .commit => l.phase.pending ≠ []
  | .lrange _ _ | .incrExpire _ _ | .ping | .insertRow _ | .advisoryLock _ => False
  | _ => True

/-- How an answer moves a request. -/
def Moves (l : Loc) : (o : Op) → o.Ans → Loc → Prop
  | .get k, r, l' => Redis.Answers r ∧ if k = STATS_KEY then
      match r with
      | .ok (some raw) => ∃ b, l' = { l with seen := some raw, base := b }
      | _ => l' = l
    else l' = l
  | .set _ _ _, r, l' => Redis.Answers r ∧ l' = l
  | .delete ks, r, l' => Redis.Answers r ∧ (STATS_KEY ∈ ks → l' = { l with cleared := true }) ∧ (STATS_KEY ∉ ks → l' = l)
  | .incr _, r, l' => Redis.Answers r ∧ l' = l
  | .pushTrim _ _ _, r, l' => Redis.Answers r ∧ l' = l
  | .select q, r, l' => match r with
    | .ok a => q.Small a ∧ if q.isFigure then ∃ b, l' = { l with reads := ⟨q, a⟩ :: l.reads, seen := none, base := b } else l' = l
    | .error _ => l' = l
  | .selectForUpdate id, r, l' => match r with
    | .ok (some row) => row.id = id ∧ l' = { l with phase := .locked row }
    | _ => l' = l
  | .insert d, r, l' => match r with
    | .ok row => row.status = d.status ∧ l' = { l with phase := .inserted row }
    | .error _ => l' = l
  | .updateStatus _ s, r, l' => match r, l.phase with
    | .ok at_, .locked row => l' = { l with phase := .moved row s at_ }
    | _, _ => l' = l
  | .commit, r, l' => match r with
    | .ok _ => ∃ t, l.phase.Stored t ∧ l' = { l with phase := .done l.phase.pending t }
    | .error _ => l' = l
  | .rollback, _, l' => l' = l.released
  | .close, _, l' => l' = l.released
  | _, _, l' => l' = l

def protocol : Protocol sig Loc := ⟨Performs, Moves⟩

/-- How a request ends. -/
def Post (c : App × Call) (l : Loc) : Except Exc Reply → Prop
  | .error _ => l.phase = .idle
  | .ok reply => match c.2 with
    | .create _ => ∃ (c : Complaint) (t : Table), c.status = .open_ ∧ l.phase = .done [.insert c] t ∧ t.find c.id = some c ∧
        l.cleared = true ∧ reply = .complaint c
    | .changeStatus id target => ∃ (c : Complaint) (t : Table), l.phase = .done [.setStatus id target c.updatedAt] t ∧
        t.find id = some c ∧ l.cleared = true ∧ reply = .complaint c
    | .stats => l.phase = .idle ∧ ∃ s hit, reply = .stats s hit ∧
        ((hit = true ∧ ∃ raw, l.seen = some raw ∧ statsIn raw = .ok s) ∨
          (hit = false ∧ ∃ (f : Figures) (at_ : Int), l.reads = f.reads ∧ s = f.stats at_))
    | .get _ => l.phase = .idle ∧ ∃ c, reply = .complaint c
    | .list _ _ _ => l.phase = .idle ∧ ∃ items total, reply = .page items total
    | .invalid _ => False

/-- Only a reader of statistics returns statistics. -/
theorem post_stats {c : App × Call} {l : Loc} {s : StatsOut} {hit : Bool} (h : Post c l (.ok (.stats s hit))) :
    (hit = true ∧ ∃ raw, l.seen = some raw ∧ statsIn raw = .ok s) ∨
      (hit = false ∧ ∃ (f : Figures) (at_ : Int), l.reads = f.reads ∧ s = f.stats at_) := by
  obtain ⟨app, call⟩ := c
  cases call with
  | create data =>
    obtain ⟨c, t, -, -, -, -, hreply⟩ := h
    cases hreply
  | changeStatus id target =>
    obtain ⟨c, t, -, -, -, hreply⟩ := h
    cases hreply
  | stats =>
    obtain ⟨-, s', hit', hreply, hs⟩ := h
    cases hreply
    exact hs
  | get id =>
    obtain ⟨-, c, hreply⟩ := h
    cases hreply
  | list f page pageSize =>
    obtain ⟨-, items, total, hreply⟩ := h
    cases hreply
  | invalid errors => exact h.elim

/-! ## What an answer changes -/

section

variable {l l' : Loc}

omit [Platform] in
/-- Reading the cache changes what was seen at most. -/
theorem moves_get {k : Str} {r : Op.Ans (.get k)} (h : Moves l (.get k) r l') : l'.reads = l.reads ∧
    (l'.seen = l.seen ∨ k = STATS_KEY ∧ ∃ raw, r = .ok (some raw) ∧ l'.seen = some raw) := by
  by_cases hk : k = STATS_KEY
  · have h' := h.2
    rw [if_pos hk] at h'
    match r, h' with
    | .error e, h' => rw [show l' = l from h']; exact ⟨rfl, .inl rfl⟩
    | .ok none, h' => rw [show l' = l from h']; exact ⟨rfl, .inl rfl⟩
    | .ok (some raw), h' =>
      obtain ⟨b, rfl⟩ := h'
      exact ⟨rfl, .inr ⟨hk, raw, rfl, rfl⟩⟩
  · have h' := h.2
    rw [if_neg hk] at h'
    rw [h']
    exact ⟨rfl, .inl rfl⟩

omit [Platform] in
/-- A `SELECT` adds its figure, if it is one and answered. -/
theorem moves_select {q : Query} {r : Op.Ans (.select q)} (h : Moves l (.select q) r l') :
    (l'.reads = l.reads ∧ l'.seen = l.seen ∧ ∀ a, r = .ok a → q.isFigure = false) ∨
      (q.isFigure = true ∧ ∃ a, r = .ok a ∧ l'.reads = ⟨q, a⟩ :: l.reads ∧ l'.seen = none) := by
  cases r with
  | error e => rw [show l' = l from h]; exact .inl ⟨rfl, rfl, fun _ e => by cases e⟩
  | ok a =>
    have h' := h.2
    by_cases hq : q.isFigure = true
    · rw [if_pos hq] at h'
      obtain ⟨b, rfl⟩ := h'
      exact .inr ⟨hq, a, rfl, rfl, rfl⟩
    · rw [if_neg hq] at h'
      rw [h']
      exact .inl ⟨rfl, rfl, fun _ _ => by simpa using hq⟩

omit [Platform] in
/-- The operations that say nothing of statistics. -/
theorem moves_aside {o : Op} {r : o.Ans} (h : Moves l o r l') (hget : ∀ k, o ≠ .get k) (hselect : ∀ q, o ≠ .select q) :
    l'.seen = l.seen ∧ l'.reads = l.reads := by
  cases o with
  | get k => exact absurd rfl (hget k)
  | select q => exact absurd rfl (hselect q)
  | set k v ex => rw [h.2]; exact ⟨rfl, rfl⟩
  | delete ks =>
    by_cases hk : STATS_KEY ∈ ks
    · rw [h.2.1 hk]; exact ⟨rfl, rfl⟩
    · rw [h.2.2 hk]; exact ⟨rfl, rfl⟩
  | incr k => rw [h.2]; exact ⟨rfl, rfl⟩
  | pushTrim k v n => rw [h.2]; exact ⟨rfl, rfl⟩
  | selectForUpdate id =>
    match r, h with
    | .error e, h => rw [show l' = l from h]; exact ⟨rfl, rfl⟩
    | .ok none, h => rw [show l' = l from h]; exact ⟨rfl, rfl⟩
    | .ok (some row), h => rw [h.2]; exact ⟨rfl, rfl⟩
  | insert d =>
    cases r with
    | error e => rw [show l' = l from h]; exact ⟨rfl, rfl⟩
    | ok row => rw [h.2]; exact ⟨rfl, rfl⟩
  | updateStatus id s =>
    cases r with
    | error e => rw [show l' = l from h]; exact ⟨rfl, rfl⟩
    | ok at_ =>
      obtain ⟨call, phase, cleared, reads, seen, base, floor⟩ := l
      cases phase <;> rw [show l' = _ from h] <;> exact ⟨rfl, rfl⟩
  | commit =>
    cases r with
    | error e => rw [show l' = l from h]; exact ⟨rfl, rfl⟩
    | ok _ =>
      obtain ⟨t, -, h⟩ := h
      rw [h]; exact ⟨rfl, rfl⟩
  | rollback => rw [show l' = l.released from h]; exact ⟨rfl, rfl⟩
  | close => rw [show l' = l.released from h]; exact ⟨rfl, rfl⟩
  | _ => rw [show l' = l from h]; exact ⟨rfl, rfl⟩

end

section

variable {α β : Type} {l : Loc}

abbrev Keeps (Q : Loc → Except Exc α → Prop) (l : Loc) (p : Code α) : Prop := Follows protocol Q l p

/-! ## Parts -/

/-- Code away from the session and the statistics. -/
theorem follows_aside {Q : Loc → Except Exc α → Prop} {p : Code α} (hp : p.Uses Aside) (hQ : ∀ r, Q l r) :
    Keeps Q l p := by
  refine Follows.of_uses ?_ ?_ hQ hp
  · intro o ho
    cases o with
    | set k v ex => exact fun e => absurd e ho
    | delete ks => exact fun e => absurd e ho
    | incr k => exact ho
    | pushTrim k v n => exact ho
    | get k => exact fun e => absurd e ho
    | triage role p t loc => trivial
    | perfCounter => trivial
    | time => trivial
    | utcnow => trivial
    | uuid4 => trivial
    | warn msg extra => trivial
    | _ => cases ho
  · intro o ho r l' hs
    cases o with
    | get k =>
      have := hs.2
      rwa [if_neg ho] at this
    | set k v ex => exact hs.2
    | delete ks => exact hs.2.2 ho
    | incr k => exact hs.2
    | pushTrim k v n => exact hs.2
    | triage role p t loc => exact hs
    | perfCounter => exact hs
    | time => exact hs
    | utcnow => exact hs
    | uuid4 => exact hs
    | warn msg extra => exact hs
    | _ => cases ho

theorem follows_map {Q : Loc → Except Exc β → Prop} {f : α → β} {p : Code α}
    (h : Keeps (fun l r => Q l (r.map f)) l p) : Keeps Q l (f <$> p) := by
  refine Follows.bind (Follows.mono ?_ h)
  intro l r hr
  cases r with
  | ok a => exact hr
  | error e => exact hr

/-- A session that is rolled back on an exception and closed. -/
theorem follows_repository {Q : Loc → Except Exc α → Prop} {body : Code α}
    (h : Keeps (fun l r => Q l.released r) l body) : Keeps Q l (repository body) := by
  refine Follows.bind (Follows.tryCatch (Follows.tryCatch (Follows.mono ?_ h)))
  intro l r hr
  cases r with
  | ok a =>
    refine ⟨trivial, fun _ l' hl => ?_⟩
    obtain rfl : l' = l.released := hl
    exact hr
  | error e =>
    refine ⟨trivial, fun _ l' hl => ⟨trivial, fun _ l'' hl' => ?_⟩⟩
    obtain rfl : l' = l.released := hl
    obtain rfl : l'' = l.released.released := hl'
    rw [Loc.released_released]
    exact hr

theorem follows_warn {Q : Loc → Except Exc Unit → Prop} (msg : Str) (extra : List (Str × Str)) (hQ : Q l (.ok ())) :
    Keeps Q l (warn msg extra) := by
  refine ⟨trivial, fun _ l' hs => ?_⟩
  obtain rfl : l = l' := Eq.symm hs
  exact hQ

/-- Dropping the statistics after a commit never fails. -/
theorem follows_invalidate {Q : Loc → Except Exc Unit → Prop} (hphase : ¬ l.phase.Open)
    (hQ : Q { l with cleared := true } (.ok ())) : Keeps Q l StatsService.invalidate := by
  unfold StatsService.invalidate JsonCache.delete
  rw [exceptRedis_op]
  refine ⟨fun _ => ⟨rfl, hphase⟩, fun r l' hs => ?_⟩
  obtain ⟨hr, hdropped, -⟩ := hs
  obtain rfl := hdropped (List.mem_singleton_self _)
  cases r with
  | ok _ => exact hQ
  | error e =>
    simp only [ofExcept_error]
    rw [exceptRedis_raise (hr e rfl)]
    exact follows_warn _ _ hQ

/-- An answer that is passed on. -/
theorem follows_ofExcept {Q : Loc → Except Exc α → Prop} {r : Except Exc α} (hQ : Q l r) : Keeps Q l (ofExcept r) := by
  cases r with
  | ok a => exact hQ
  | error e => exact hQ

/-! ## Statistics -/

/-- One more figure. -/
theorem follows_grouped {Q : Loc → Except Exc (Dict Str Int) → Prop} {col : Table.Column} (hphase : l.phase = .idle)
    (hreads : l.reads ≠ []) (herr : ∀ e, Q l (.error e))
    (hok : ∀ rows b, Query.Small (.groupBy col) rows →
      Q { l with reads := ⟨.groupBy col, rows⟩ :: l.reads, seen := none, base := b } (.ok (groupDict rows))) :
    Keeps Q l (Repository.grouped col) := by
  refine ⟨⟨hphase, hreads⟩, fun r l' hs => ?_⟩
  cases r with
  | error e =>
    obtain rfl : l = l' := Eq.symm hs
    exact herr e
  | ok rows =>
    obtain ⟨hsmall, b, rfl⟩ := hs
    exact hok rows b hsmall

theorem follows_aggregates {Q : Loc → Except Exc Aggregates → Prop} (hphase : l.phase = .idle) (hreads : l.reads = [])
    (herr : ∀ reads seen b e, Q { l with reads := reads, seen := seen, base := b } (.error e))
    (hok : ∀ (f : Figures) b, f.Small → Q { l with reads := f.reads, seen := none, base := b } (.ok f.aggregates)) :
    Keeps Q l Repository.aggregates := by
  refine ⟨⟨hphase, hreads⟩, fun r l' hs => ?_⟩
  cases r with
  | error e =>
    obtain rfl : l = l' := Eq.symm hs
    exact herr l.reads l.seen l.base e
  | ok counted =>
    obtain ⟨h1, b1, rfl⟩ := hs
    simp only [ofExcept_ok, Prog.ret_bind]
    refine Follows.bind (follows_grouped hphase (by simp) (herr _ _ _) fun category b2 h2 => ?_)
    refine Follows.bind (follows_grouped hphase (by simp) (herr _ _ _) fun priority b3 h3 => ?_)
    refine Follows.bind (follows_grouped hphase (by simp) (herr _ _ _) fun status b4 h4 => ?_)
    refine Follows.bind (follows_grouped hphase (by simp) (herr _ _ _) fun triagedBy b5 h5 => ?_)
    have := hok ⟨counted, category, priority, status, triagedBy⟩ b5 ⟨h1, h2, h3, h4, h5⟩
    rw [Figures.reads, ← hreads] at this
    exact this

/-- Reading the statistics' key: nothing, or what is there. -/
theorem follows_cached {Q : Loc → Except Exc Json → Prop} (hreads : l.reads = []) (hmiss : Q l (.ok .null))
    (hhit : ∀ raw b, Q { l with seen := some raw, base := b } (JsonCache.loadsRaw raw)) :
    Keeps Q l (JsonCache.get STATS_KEY) := by
  unfold JsonCache.get
  rw [exceptRedis_op, Prog.op_bind]
  refine ⟨fun _ => hreads, fun r l' hs => ?_⟩
  obtain ⟨hr, hl⟩ := hs
  rw [if_pos rfl] at hl
  match r, hr, hl with
  | .ok none, _, hl =>
    obtain rfl : l = l' := Eq.symm hl
    exact hmiss
  | .ok (some raw), _, hl =>
    obtain ⟨b, rfl⟩ := hl
    exact follows_ofExcept (hhit raw b)
  | .error e, hr, hl =>
    obtain rfl : l = l' := Eq.symm hl
    simp only [ofExcept_error]
    rw [exceptRedis_raise (hr e rfl)]
    exact Follows.bind (Follows.bind (follows_warn _ _ hmiss))

/-- The figures from the table, put in the cache. -/
theorem follows_compute {Q : Loc → Except Exc (StatsOut × Bool) → Prop} (ttl : Int) (hphase : l.phase = .idle)
    (hreads : l.reads = []) (herr : ∀ reads seen b e, Q { l with reads := reads, seen := seen, base := b } (.error e))
    (hok : ∀ (f : Figures) b at_, Q { l with reads := f.reads, seen := none, base := b } (.ok (f.stats at_, false))) :
    Keeps Q l (StatsService.compute ttl) := by
  refine Follows.bind (follows_aggregates hphase hreads herr fun f b hf => ⟨trivial, fun at_ l' hs => ?_⟩)
  obtain rfl : l' = { l with reads := f.reads, seen := none, base := b } := hs
  refine Follows.bind ?_
  unfold JsonCache.set
  rw [exceptRedis_op]
  refine ⟨fun _ => ⟨f, at_, rfl, hf, rfl⟩, fun r l' hs => ?_⟩
  obtain ⟨hr, rfl⟩ := hs
  cases r with
  | ok _ => exact hok f b at_
  | error e =>
    simp only [ofExcept_error]
    rw [exceptRedis_raise (hr e rfl)]
    exact follows_warn _ _ (hok f b at_)

theorem follows_stats {Q : Loc → Except Exc (StatsOut × Bool) → Prop} (ttl : Int) (hphase : l.phase = .idle)
    (hreads : l.reads = []) (herr : ∀ reads seen b e, Q { l with reads := reads, seen := seen, base := b } (.error e))
    (hcomputed : ∀ (f : Figures) b at_, Q { l with reads := f.reads, seen := none, base := b } (.ok (f.stats at_, false)))
    (hcached : ∀ raw b s, statsIn raw = .ok s → Q { l with seen := some raw, base := b } (.ok (s, true))) :
    Keeps Q l (StatsService.get ttl) := by
  refine Follows.bind (follows_cached hreads (follows_compute ttl hphase hreads herr hcomputed) fun raw b => ?_)
  cases hj : JsonCache.loadsRaw raw with
  | error e => exact herr l.reads _ _ e
  | ok j =>
    have hvalid : Keeps Q { l with seen := some raw, base := b } (do return (← ofExcept (StatsOut.modelValidate j), true)) := by
      cases hs : StatsOut.modelValidate j with
      | error e => exact herr l.reads _ _ e
      | ok s =>
        refine hcached raw b s ?_
        rw [statsIn, hj]
        exact hs
    -- a stored `null` is a miss
    cases j with
    | null => exact follows_compute ttl hphase hreads herr hcomputed
    | _ => exact hvalid

/-! ## Complaints -/

/-- The end of both writing requests: commit, then drop the statistics. -/
theorem follows_committed {Q : Loc → Except Exc Complaint → Prop} {row : Complaint} (hpending : l.phase.pending ≠ [])
    (herr : ∀ e, Q l (.error e))
    (hok : ∀ t, l.phase.Stored t → Q { l with phase := .done l.phase.pending t, cleared := true } (.ok row)) :
    Keeps Q l (do Repository.commit; StatsService.invalidate; return row) := by
  refine ⟨hpending, fun r l' hs => ?_⟩
  cases r with
  | error e =>
    obtain rfl : l = l' := Eq.symm hs
    exact herr e
  | ok _ =>
    obtain ⟨t, ht, rfl⟩ := hs
    show Keeps Q _ (StatsService.invalidate >>= fun _ => .ret row)
    exact Follows.bind (follows_invalidate (fun h => h _ _ rfl) (hok t ht))

theorem follows_create {Q : Loc → Except Exc Complaint → Prop} {svc : TriageService} {data : ComplaintCreate}
    (hphase : l.phase = .idle) (hcall : l.call.2 = .create data)
    (herr : ∀ p e, p.Open → Q { l with phase := p } (.error e))
    (hok : ∀ (row : Complaint) t, row.status = .open_ → t.find row.id = some row →
      Q { l with phase := .done [.insert row] t, cleared := true } (.ok row)) :
    Keeps Q l (ComplaintService.create svc data) := by
  have hidle : ∀ e, Q l (.error e) := fun e => by
    have := herr .idle e (fun _ _ h => by cases h)
    rwa [← hphase] at this
  refine ⟨trivial, fun id l' hs => ?_⟩
  obtain rfl : l = l' := Eq.symm hs
  refine Follows.bind (follows_aside (triage_uses svc _ _ _) fun r => ?_)
  cases r with
  | error e => exact hidle e
  | ok outcome =>
    obtain ⟨result, triagedBy, latencyMs, fallback, cached, error⟩ := outcome
    cases result with
    | none => exact hidle _
    | some result =>
      refine ⟨⟨hphase, rfl, data, hcall⟩, fun r l' hs => ?_⟩
      cases r with
      | error e =>
        obtain rfl : l = l' := Eq.symm hs
        exact hidle e
      | ok row =>
        obtain ⟨hopen, rfl⟩ := hs
        refine follows_committed (by simp [Phase.pending]) (fun e => ?_) fun t ht => hok row t hopen ht
        exact herr (.inserted row) e (fun _ _ h => by cases h)

theorem follows_changeStatus {Q : Loc → Except Exc Complaint → Prop} {id : Uuid} {target : Status}
    (hphase : l.phase = .idle) (hcall : l.call.2 = .changeStatus id target)
    (herr : ∀ p e, p.Open → Q { l with phase := p } (.error e))
    (hok : ∀ (c : Complaint) t, t.find id = some c →
      Q { l with phase := .done [.setStatus id target c.updatedAt] t, cleared := true } (.ok c)) :
    Keeps Q l (ComplaintService.changeStatus id target) := by
  have hidle : ∀ e, Q l (.error e) := fun e => by
    have := herr .idle e (fun _ _ h => by cases h)
    rwa [← hphase] at this
  refine ⟨⟨hphase, target, hcall⟩, fun r l' hs => ?_⟩
  match r, hs with
  | .error e, hs =>
    obtain rfl : l = l' := Eq.symm hs
    exact hidle e
  | .ok none, hs =>
    obtain rfl : l = l' := Eq.symm hs
    exact hidle _
  | .ok (some row), hs =>
    obtain ⟨rfl, rfl⟩ := hs
    show Keeps Q _ (if canTransition row.status target = true then _ else _)
    split
    · rename_i hcan
      refine ⟨⟨row, rfl, rfl, hcan, hcall⟩, fun r l' hs => ?_⟩
      cases r with
      | error e =>
        obtain rfl : _ = l' := Eq.symm hs
        exact herr (.locked row) e (fun _ _ h => by cases h)
      | ok at_ =>
        obtain rfl : _ = l' := Eq.symm hs
        refine follows_committed (by simp [Phase.pending]) (fun e => ?_) fun t ht => hok _ t ht
        exact herr (.moved row target at_) e (fun _ _ h => by cases h)
    · refine ⟨trivial, fun _ l' hs => ?_⟩
      obtain rfl : _ = l' := Eq.symm hs
      exact herr .idle _ (fun _ _ h => by cases h)

/-! ## Requests -/

/-- A complaint that is shown, and a page of complaints. -/
theorem follows_select {q : Query} {Q : Loc → Except Exc α → Prop} {f : q.Ans → Code α} (hq : q.isFigure = false)
    (hphase : l.phase = .idle) (herr : ∀ e, Q l (.error e)) (hok : ∀ a, Keeps Q l (f a)) :
    Keeps Q l (.op (.select q) fun r => ofExcept r >>= f) := by
  refine ⟨?_, fun r l' hs => ?_⟩
  · cases q with
    | countAvg => cases hq
    | groupBy col => cases hq
    | _ => exact hphase
  · cases r with
    | error e =>
      obtain rfl : l = l' := Eq.symm hs
      exact herr e
    | ok a =>
      obtain ⟨-, hl⟩ := hs
      rw [hq] at hl
      obtain rfl : l = l' := Eq.symm hl
      exact hok a

/-- Every request keeps to the protocol, from where it begins. -/
theorem serve_follows (c : App × Call) (floor : Nat) : Keeps (Post c) (.begun c floor) (serve c) := by
  refine follows_repository ?_
  obtain ⟨app, call⟩ := c
  cases call with
  | create data =>
    refine follows_map (follows_create rfl rfl (fun p e hp => ?_) fun row t hopen ht => ?_)
    · exact hp.released
    · exact ⟨row, t, hopen, rfl, ht, rfl, rfl⟩
  | changeStatus id target =>
    refine follows_map (follows_changeStatus rfl rfl (fun p e hp => ?_) fun row t ht => ?_)
    · exact hp.released
    · exact ⟨row, t, rfl, ht, rfl, rfl⟩
  | stats =>
    refine follows_map (follows_stats app.statsTtl rfl rfl (fun _ _ _ _ => rfl) (fun f b at_ => ?_) fun raw b s hs => ?_)
    · exact ⟨rfl, f.stats at_, false, rfl, .inr ⟨rfl, f, at_, rfl, rfl⟩⟩
    · exact ⟨rfl, s, true, rfl, .inl ⟨rfl, raw, rfl, hs⟩⟩
  | get id =>
    refine follows_map (follows_select (q := .byId id) rfl rfl (fun _ => rfl) fun row => ?_)
    cases row with
    | none => exact rfl
    | some row => exact ⟨rfl, row, rfl⟩
  | list f page pageSize =>
    refine follows_map (follows_select (q := .count f) rfl rfl (fun _ => rfl) fun total => ?_)
    refine follows_select (q := .page f _ _) rfl rfl (fun _ => rfl) fun rows => ?_
    exact ⟨rfl, rows, total, rfl⟩
  | invalid errors => exact rfl

end

end Request

end CivicPulse
