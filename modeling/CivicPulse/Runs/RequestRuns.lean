/-
  CivicPulse.Runs.RequestRuns — requests on one database and one Redis, in any order: the
  invariant behind every result about complaints and statistics.

  - `exec_fits`: what one operation of a request does to its own session, its reads and
    its commits.
  - `exec_inv`: an operation keeps the invariant, as long as what it leaves in the
    statistics' entry is allowed there.
  - `request_run`: both hold after any run.

  A committed version of the table is known by its number, so what was read stays what it
  was: a reader's figures are those of versions in the order of its `SELECT`s.
-/

import CivicPulse.Runs.Sessions

namespace CivicPulse.Request

open Text Lang

open Function (update)

/-! ## What was read -/

/-- Figures, newest first, read from versions `lo ≤ … ≤ hi` of the table. -/
inductive ReadFrom (tab : Nat → Table) (lo : Nat) : List Figure → Nat → Prop
  | nil : ReadFrom tab lo [] lo
  | read {fs : List Figure} {v v' : Nat} (q : Query) : ReadFrom tab lo fs v → v ≤ v' →
      ReadFrom tab lo (⟨q, q.eval (tab v')⟩ :: fs) v'

theorem ReadFrom.le {tab : Nat → Table} {lo hi : Nat} {fs : List Figure} (h : ReadFrom tab lo fs hi) : lo ≤ hi := by
  induction h with
  | nil => exact le_refl _
  | read q _ hv ih => exact ih.trans hv

theorem ReadFrom.congr {tab tab' : Nat → Table} {lo hi : Nat} {fs : List Figure} (h : ReadFrom tab lo fs hi)
    (heq : ∀ v ≤ hi, tab v = tab' v) : ReadFrom tab' lo fs hi := by
  induction h with
  | nil => exact .nil
  | @read fs v v' q _ hv ih =>
    rw [heq v' (le_refl _)]
    exact .read q (ih fun u hu => heq u (hu.trans hv)) hv

/-- The figures are those of committed versions, none older than `b`. -/
def Known (t₀ : Table) (db : Db) (b : Nat) (fs : List Figure) : Prop :=
  ∃ hi ≤ db.commits.length, ReadFrom (version t₀ db.commits) b fs hi

variable {t₀ : Table} {db db' : Db} {b : Nat} {fs : List Figure}

/-- More commits change no version. -/
theorem Known.grows (h : Known t₀ db b fs) (hg : db'.commits = db.commits ∨ ∃ k, db'.commits = k :: db.commits) :
    Known t₀ db' b fs := by
  obtain ⟨hi, hle, hr⟩ := h
  rcases hg with e | ⟨k, e⟩
  · rw [Known, e]
    exact ⟨hi, hle, hr⟩
  · rw [Known, e]
    exact ⟨hi, by simp only [List.length_cons]; omega, hr.congr fun v hv => (version_cons (hv.trans hle)).symm⟩

/-- One `SELECT` more, on the newest version. -/
theorem Known.read (h : Known t₀ db b fs) (hh : History t₀ db.commits db.table) (q : Query) :
    Known t₀ db b (⟨q, q.eval db.table⟩ :: fs) := by
  obtain ⟨hi, hle, hr⟩ := h
  refine ⟨db.commits.length, le_refl _, ?_⟩
  rw [← version_length hh]
  exact .read q hr hle

theorem known_nil : Known t₀ db db.commits.length [] := ⟨_, le_refl _, .nil⟩

/-! ## A request's local state -/

/-- The transaction's writes, committed or not. -/
def Phase.writes : Phase → Option (List Write)
  | .moved row s at_ => some [.setStatus row.id s at_]
  | .inserted row => some [.insert row]
  | .done ws _ => some ws
  | _ => none

/-- What a call may write. -/
inductive Written : Call → List Write → Prop
  | created (data : ComplaintCreate) (row : Complaint) : Written (.create data) [.insert row]
  | moved (id : Uuid) (s : Status) (at_ : Int) : Written (.changeStatus id s) [.setStatus id s at_]

section

variable [Platform]

/-- A cached value that holds the statistics of known figures. -/
def Encoded (t₀ : Table) (db : Db) (b : Nat) (raw : Raw) : Prop :=
  ∃ (f : Figures) (at_ : Int), f.Small ∧ raw = .text (f.stats at_).modelDump.dumps ∧ Known t₀ db b f.reads

theorem Encoded.grows {raw : Raw} (h : Encoded t₀ db b raw)
    (hg : db'.commits = db.commits ∨ ∃ k, db'.commits = k :: db.commits) : Encoded t₀ db' b raw := by
  obtain ⟨f, at_, hf, hraw, hk⟩ := h
  exact ⟨f, at_, hf, hraw, hk.grows hg⟩

/-- Known figures come back as they are. -/
theorem Encoded.stats {raw : Raw} {s : StatsOut} (h : Encoded t₀ db b raw) (hs : statsIn raw = .ok s) :
    ∃ (f : Figures) (at_ : Int), s = f.stats at_ ∧ Known t₀ db b f.reads := by
  obtain ⟨f, at_, hf, rfl, hk⟩ := h
  rw [statsIn, loads_stats hf] at hs
  have hv : StatsOut.modelValidate (f.stats at_).modelDump = .ok s := hs
  rw [StatsOut.modelValidate_dump] at hv
  cases hv
  exact ⟨f, at_, rfl, hk⟩

/-- What holds of request `i` in local state `l`. -/
structure Fits (t₀ : Table) (db : Db) (i : Nat) (l : Loc) : Prop where
  session : Session db i l.phase
  writes : ∀ ws, l.phase.writes = some ws → Written l.call.2 ws
  reads : l.reads ≠ [] → ∃ b, l.base = some b ∧ Known t₀ db b l.reads
  seen : ∀ raw b, l.seen = some raw → l.base = some b → Encoded t₀ db b raw

/-- Another request's operation. -/
theorem Fits.frame {i j : Nat} {l : Loc} {p : Phase} (h : Fits t₀ db j l) (hk : Kept t₀ i db db' p) (hj : j ≠ i) :
    Fits t₀ db' j l where
  session := hk.others j l.phase hj h.session
  writes := h.writes
  reads hr := by
    obtain ⟨b, hb, hread⟩ := h.reads hr
    exact ⟨b, hb, hread.grows hk.grows⟩
  seen raw b hs hb := (h.seen raw b hs hb).grows hk.grows

/-! ## The invariant -/

/-- `A w none`: the statistics' entry may hold anything; `A w (some b)`: it may hold
    figures of versions from `b` on. -/
structure Inv (A : World → Option Nat → Prop) (t₀ : Table) (w : World) (ls : Nat → Option Loc) : Prop where
  history : History t₀ w.db.commits w.db.table
  idle : ∀ i, ls i = none → Session w.db i .idle
  fits : ∀ i l, ls i = some l → Fits t₀ w.db i l
  cache : ∀ e, w.redis STATS_KEY = some e →
    ∃ o, A w o ∧ ∀ b, o = some b → ∃ raw, e.val = .str raw ∧ Encoded t₀ w.db b raw

/-- What one operation changes, for what is proved on top. -/
structure Tracks (A : World → Option Nat → Prop) (i : Nat) (w w' : World) (l l' : Loc) (o : Op) (r : o.Ans) : Prop where
  call : l'.call = l.call
  floor : l'.floor = l.floor
  opened : l'.phase.Open → l.phase.Open
  cleared : l'.cleared = true → l.cleared = true ∨ ∃ ks, o = .delete ks ∧ STATS_KEY ∈ ks
  reads : l'.reads ≠ [] → (l.reads ≠ [] ∧ l'.base = l.base ∧ o ≠ .select .countAvg) ∨
    (o = .select .countAvg ∧ l'.base = some w.db.commits.length)
  seen : l'.seen ≠ none → (l'.seen = l.seen ∧ l'.base = l.base) ∨ A w l'.base
  commits : w'.db.commits = w.db.commits ∨
    ∃ ws t, w'.db.commits = ⟨i, ws, t⟩ :: w.db.commits ∧ l.phase.Open ∧ (⟨o, r⟩ : Σ o : Op, o.Ans) = ⟨.commit, .ok ()⟩

variable {A : World → Option Nat → Prop} {E : Env} {w : World} {ls : Nat → Option Loc} {i : Nat} {l : Loc}

/-! ## One operation -/

/-- What is asked of one operation of request `i`. -/
def Stepped (A : World → Option Nat → Prop) (E : Env) (t₀ : Table) (w : World) (i : Nat) (l : Loc) (o : Op) : Prop :=
  ∃ l', Moves l o (World.exec E i o w).1 l' ∧ Kept t₀ i w.db (World.exec E i o w).2.db l'.phase ∧
    Fits t₀ (World.exec E i o w).2.db i l' ∧ Tracks A i w (World.exec E i o w).2 l l' o (World.exec E i o w).1

omit [Platform] in
theorem Tracks.same {w' : World} {o : Op} {r : o.Ans} (ho : o = .select .countAvg → l.reads = [])
    (hc : w'.db.commits = w.db.commits) : Tracks A i w w' l l o r :=
  ⟨rfl, rfl, id, .inl, fun h => .inl ⟨h, rfl, fun e => h (ho e)⟩, fun _ => .inl ⟨rfl, rfl⟩, .inl hc⟩

/-- Neither the database nor the request moves. -/
theorem stepped_same (h : Inv A t₀ w ls) (hl : ls i = some l) {o : Op} (hdb : (World.exec E i o w).2.db = w.db)
    (ho : o = .select .countAvg → l.reads = []) (hm : Moves l o (World.exec E i o w).1 l) : Stepped A E t₀ w i l o := by
  have hfits := h.fits i l hl
  refine ⟨l, hm, ?_, ?_, .same ho (by rw [hdb])⟩
  · rw [hdb]
    exact kept_same hfits.session h.history
  · rw [hdb]
    exact hfits

/-- The database does something to the request's session only. -/
theorem stepped_kept (h : Inv A t₀ w ls) (hl : ls i = some l) {o : Op} {p : Phase}
    (hm : Moves l o (World.exec E i o w).1 { l with phase := p }) (hk : Kept t₀ i w.db (World.exec E i o w).2.db p)
    (hw : ∀ ws, p.writes = some ws → Written l.call.2 ws) (hopen : p.Open → l.phase.Open) (ho : o = .select .countAvg → l.reads = [])
    (hc : (World.exec E i o w).2.db.commits = w.db.commits ∨ ∃ ws t, (World.exec E i o w).2.db.commits = ⟨i, ws, t⟩ :: w.db.commits ∧
      l.phase.Open ∧ (⟨o, (World.exec E i o w).1⟩ : Σ o : Op, o.Ans) = ⟨.commit, .ok ()⟩) : Stepped A E t₀ w i l o := by
  have hfits := h.fits i l hl
  refine ⟨{ l with phase := p }, hm, hk, ⟨hk.own, hw, fun hr => ?_, fun raw b hs hb => (hfits.seen raw b hs hb).grows hk.grows⟩,
    ⟨rfl, rfl, hopen, .inl, fun hr => .inl ⟨hr, rfl, fun e => hr (ho e)⟩, fun _ => .inl ⟨rfl, rfl⟩, hc⟩⟩
  obtain ⟨b, hb, hread⟩ := hfits.reads hr
  exact ⟨b, hb, hread.grows hk.grows⟩

/-- Reading the statistics' entry. -/
theorem stepped_get (h : Inv A t₀ w ls) (hl : ls i = some l) {k : Str} (hcan : Performs l (.get k)) :
    Stepped A E t₀ w i l (.get k) := by
  have hans : Redis.Answers (World.exec E i (.get k) w).1 := Redis.answers_faulty (fun _ => Redis.answers_get) _ _
  have hskip : Moves l (.get k) (World.exec E i (.get k) w).1 l ∨
      k = STATS_KEY ∧ ∃ raw, (World.exec E i (.get k) w).1 = .ok (some raw) := by
    by_cases hk : k = STATS_KEY
    · match hr : (World.exec E i (.get k) w).1 with
      | .ok (some raw) => exact .inr ⟨hk, raw, rfl⟩
      | .ok none => exact .inl ⟨hr ▸ hans, by rw [if_pos hk]⟩
      | .error e => exact .inl ⟨hr ▸ hans, by rw [if_pos hk]⟩
    · exact .inl ⟨hans, by rw [if_neg hk]⟩
  rcases hskip with hm | ⟨rfl, raw, hraw⟩
  · exact stepped_same h hl rfl (fun e => by cases e) hm
  · obtain ⟨e, he, hv⟩ := World.exec_get hraw
    obtain ⟨o, ho, hknown⟩ := h.cache e he
    have hfits := h.fits i l hl
    have hnone : l.reads = [] := hcan rfl
    refine ⟨{ l with seen := some raw, base := o }, ⟨hans, ?_⟩, kept_same hfits.session h.history, ⟨hfits.session, hfits.writes,
      fun hr => absurd hnone hr, fun raw' b hs hb => ?_⟩, ⟨rfl, rfl, id, .inl, fun hr => absurd hnone hr, fun _ => .inr ho, .inl rfl⟩⟩
    · rw [if_pos rfl, hraw]
      exact ⟨o, rfl⟩
    · obtain ⟨raw'', hv', henc⟩ := hknown b hb
      cases hs
      rcases hv with hv | ⟨n, hv, -⟩
      · rw [hv'] at hv
        cases hv
        exact henc
      · rw [hv'] at hv
        cases hv

/-- A `SELECT`. -/
theorem stepped_select (h : Inv A t₀ w ls) (hl : ls i = some l) {q : Query} (hcan : Performs l (.select q)) :
    Stepped A E t₀ w i l (.select q) := by
  have hfits := h.fits i l hl
  have hphase : l.phase = .idle := by cases q <;> first | exact hcan.1 | exact hcan
  have hcount : Op.select q = .select .countAvg → l.reads = [] := by
    intro e
    cases e
    exact hcan.2
  have hview : w.db.view i = w.db.table := view_idle hfits.session (by rw [hphase]; rfl)
  obtain ⟨hdb, ⟨e, hexec⟩ | ⟨hq, hexec⟩⟩ := World.select_cases (E := E) (i := i) (w := w) q
  · refine stepped_same h hl hdb hcount ?_
    rw [hexec]
    rfl
  · rw [hview] at hq hexec
    by_cases hf : q.isFigure = true
    · -- the first figure fixes the oldest version
      have hbase : ∃ b, Known t₀ w.db b l.reads ∧ ((l.reads ≠ [] ∧ some b = l.base ∧ Op.select q ≠ .select .countAvg) ∨
          (Op.select q = .select .countAvg ∧ some b = some w.db.commits.length)) := by
        cases q with
        | countAvg => exact ⟨_, by rw [hcan.2]; exact known_nil, .inr ⟨rfl, rfl⟩⟩
        | groupBy col =>
          obtain ⟨b, hb, hk⟩ := hfits.reads hcan.2
          exact ⟨b, hk, .inl ⟨hcan.2, hb.symm, fun e => by cases e⟩⟩
        | _ => cases hf
      obtain ⟨b, hk, hb⟩ := hbase
      refine ⟨{ l with reads := ⟨q, q.eval w.db.table⟩ :: l.reads, seen := none, base := some b }, ?_, ?_, ?_, ?_⟩
      · rw [hexec]
        exact ⟨eval_small hq, by rw [if_pos hf]; exact ⟨_, rfl⟩⟩
      · rw [hdb]
        exact kept_same hfits.session h.history
      · rw [hdb]
        exact ⟨hfits.session, hfits.writes, fun _ => ⟨b, rfl, hk.read h.history q⟩, fun _ _ e => by cases e⟩
      · exact ⟨rfl, rfl, id, .inl, fun _ => hb, fun hs => absurd rfl hs, .inl (by rw [hdb])⟩
    · refine stepped_same h hl hdb hcount ?_
      rw [hexec]
      exact ⟨eval_small hq, by rw [if_neg hf]⟩

/-- `SELECT … FOR UPDATE`. -/
theorem stepped_lock (h : Inv A t₀ w ls) (hl : ls i = some l) {id : Uuid} (hcan : Performs l (.selectForUpdate id))
    (hen : World.enabled i (.selectForUpdate id) w = true) : Stepped A E t₀ w i l (.selectForUpdate id) := by
  have hfits := h.fits i l hl
  obtain ⟨hphase, target, hcall⟩ := hcan
  have hview : w.db.view i = w.db.table := view_idle hfits.session (by rw [hphase]; rfl)
  rcases World.selectForUpdate_cases (E := E) (i := i) (w := w) id with ⟨hdb, hexec⟩ | ⟨row, hfind, hexec, hdb⟩
  · refine stepped_same h hl hdb (fun e => by cases e) ?_
    rcases hexec with hexec | ⟨e, hexec⟩ <;> rw [hexec] <;> rfl
  · rw [hview] at hfind
    obtain rfl : row.id = id := (Table.find_some hfind).2
    have hfree : w.db.free i row.id = true := by
      have hmem : row.id ∈ w.db.table.ids := Table.find_isSome.mp (by rw [hfind]; rfl)
      simpa [World.enabled, hview, hmem] using hen
    refine stepped_kept h hl (p := .locked row) ?_ ?_ (fun _ e => by cases e) ?_ (fun e => by cases e) (.inl (by rw [hdb]))
    · rw [hexec]
      exact ⟨rfl, rfl⟩
    · rw [hdb]
      exact kept_lock (hphase ▸ hfits.session) h.history hfind hfree
    · rw [hphase]
      exact fun _ _ _ e => by cases e

/-- An `INSERT`. -/
theorem stepped_insert (h : Inv A t₀ w ls) (hl : ls i = some l) {d : Draft} (hcan : Performs l (.insert d))
    (hen : World.enabled i (.insert d) w = true) : Stepped A E t₀ w i l (.insert d) := by
  have hfits := h.fits i l hl
  obtain ⟨hphase, hopen, data, hcall⟩ := hcan
  have hview : w.db.view i = w.db.table := view_idle hfits.session (by rw [hphase]; rfl)
  rcases World.insert_cases (E := E) (i := i) (w := w) d with ⟨hdb, e, hexec⟩ | ⟨row, hid, hstatus, hnew, hexec, hdb⟩
  · refine stepped_same h hl hdb (fun e => by cases e) ?_
    rw [hexec]
    rfl
  · rw [hview] at hnew
    have hfree : w.db.free i row.id = true := by
      rw [hid]
      exact hen
    have hsession : Session w.db i .idle := hphase ▸ hfits.session
    refine stepped_kept h hl (p := .inserted row) ?_ ?_ ?_ ?_ (fun e => by cases e) (.inl (by rw [hdb]; rfl))
    · rw [hexec]
      exact ⟨hstatus, rfl⟩
    · rw [hdb]
      exact kept_write hsession h.history rfl (.inl rfl) hfree rfl rfl
        ⟨Table.find_none.mpr hnew, hstatus.trans hopen⟩ rfl
    · intro ws e
      cases e
      rw [hcall]
      exact .created data row
    · rw [hphase]
      exact fun _ _ _ e => by cases e

/-- An `UPDATE` of the locked row. -/
theorem stepped_update (h : Inv A t₀ w ls) (hl : ls i = some l) {id : Uuid} {s : Status}
    (hcan : Performs l (.updateStatus id s)) (hen : World.enabled i (.updateStatus id s) w = true) :
    Stepped A E t₀ w i l (.updateStatus id s) := by
  have hfits := h.fits i l hl
  obtain ⟨row, hphase, rfl, hstep, hcall⟩ := hcan
  rcases World.updateStatus_cases (E := E) (i := i) (w := w) row.id s with ⟨hdb, e, hexec⟩ | ⟨at_, hexec, hdb⟩
  · refine stepped_same h hl hdb (fun e => by cases e) ?_
    rw [hexec]
    rfl
  · have hsession := hfits.session
    rw [hphase] at hsession
    refine stepped_kept h hl (p := .moved row s at_) ?_ ?_ ?_ ?_ (fun e => by cases e) (.inl (by rw [hdb]; rfl))
    · rw [hexec]
      unfold Moves
      rw [hphase]
    · rw [hdb]
      exact kept_write hsession h.history rfl (.inr rfl) hen rfl rfl ⟨hsession.sees, hstep⟩ rfl
    · intro ws e
      cases e
      rw [hcall]
      exact .moved row.id s at_
    · rw [hphase]
      exact fun _ _ _ e => by cases e

/-- A commit. -/
theorem stepped_commit (h : Inv A t₀ w ls) (hl : ls i = some l) (hcan : Performs l .commit) : Stepped A E t₀ w i l .commit := by
  have hfits := h.fits i l hl
  have hpending : l.phase.pending ≠ [] := hcan
  rcases World.commit_cases (E := E) (i := i) (w := w) with ⟨hdb, e, hexec⟩ | ⟨hexec, hdb⟩
  · refine stepped_same h hl hdb (fun e => by cases e) ?_
    rw [hexec]
    rfl
  · have hopen : l.phase.Open := by
      intro ws t e
      rw [e] at hpending
      exact hpending rfl
    have hwrites : l.phase.writes = some l.phase.pending := by
      cases hp : l.phase with
      | done ws t => exact absurd hp (hopen ws t)
      | moved row s at_ => rfl
      | inserted row => rfl
      | _ =>
        rw [hp] at hpending
        exact absurd rfl hpending
    refine stepped_kept h hl (p := .done l.phase.pending (w.db.view i)) ?_ ?_ ?_ (fun _ => hopen) (fun e => by cases e) (.inr ?_)
    · rw [hexec]
      refine ⟨_, ?_, rfl⟩
      rw [Db.view, hfits.session.pending]
      exact stored_pending hfits.session.sees
    · rw [hdb]
      exact kept_commit hfits.session h.history hpending
    · intro ws e
      exact hfits.writes ws (hwrites.trans e)
    · refine ⟨w.db.pending i, w.db.view i, ?_, hopen, by rw [hexec]⟩
      have hne : (w.db.pending i).isEmpty = false := by
        rw [hfits.session.pending]
        simpa using hpending
      rw [hdb, Db.commit, if_neg (by rw [hne]; decide)]

/-- The end of a session, with or without a commit before it. -/
theorem stepped_finish (h : Inv A t₀ w ls) (hl : ls i = some l) {o : Op} (ho : o ≠ .select .countAvg)
    (hdb : (World.exec E i o w).2.db = w.db.finish i) (hm : Moves l o (World.exec E i o w).1 l.released) :
    Stepped A E t₀ w i l o := by
  have hfits := h.fits i l hl
  refine stepped_kept h hl hm ?_ ?_ ?_ (fun e => absurd e ho) (.inl (by rw [hdb]; rfl))
  · rw [hdb]
    exact kept_finish hfits.session h.history
  · intro ws e
    refine hfits.writes ws ?_
    cases hp : l.phase with
    | done ws' t =>
      rw [hp] at e
      exact e
    | _ =>
      rw [hp] at e
      cases e
  · intro hopen ws t e
    rw [e] at hopen
    exact hopen ws t rfl

/-- Every operation a request may perform. -/
theorem exec_fits (h : Inv A t₀ w ls) (hl : ls i = some l) (o : Op) (hcan : Performs l o)
    (hen : World.enabled i o w = true) : Stepped A E t₀ w i l o := by
  cases o with
  | get k => exact stepped_get h hl hcan
  | set k v ex =>
    exact stepped_same h hl rfl (fun e => by cases e) ⟨Redis.answers_faulty (fun _ => Redis.answers_set) _ _, rfl⟩
  | delete ks =>
    have hans : Redis.Answers (World.exec E i (.delete ks) w).1 := Redis.answers_faulty (fun _ => Redis.answers_ok _) _ _
    have hfits := h.fits i l hl
    by_cases hk : STATS_KEY ∈ ks
    · exact ⟨{ l with cleared := true }, ⟨hans, fun _ => rfl, fun h => absurd hk h⟩, kept_same hfits.session h.history,
        ⟨hfits.session, hfits.writes, hfits.reads, hfits.seen⟩,
        ⟨rfl, rfl, id, fun _ => .inr ⟨ks, rfl, hk⟩, fun hr => .inl ⟨hr, rfl, fun e => by cases e⟩, fun _ => .inl ⟨rfl, rfl⟩, .inl rfl⟩⟩
    · exact stepped_same h hl rfl (fun e => by cases e) ⟨hans, fun h => absurd h hk, fun _ => rfl⟩
  | incr k =>
    exact stepped_same h hl rfl (fun e => by cases e) ⟨Redis.answers_faulty (fun _ => Redis.answers_incr) _ _, rfl⟩
  | pushTrim k v n =>
    exact stepped_same h hl rfl (fun e => by cases e) ⟨Redis.answers_faulty (fun _ => Redis.answers_pushTrim) _ _, rfl⟩
  | lrange k n => exact hcan.elim
  | incrExpire k ttl => exact hcan.elim
  | ping => exact hcan.elim
  | select q => exact stepped_select h hl hcan
  | selectForUpdate id => exact stepped_lock h hl hcan hen
  | insert d => exact stepped_insert h hl hcan hen
  | updateStatus id s => exact stepped_update h hl hcan hen
  | insertRow c => exact hcan.elim
  | advisoryLock key => exact hcan.elim
  | commit => exact stepped_commit h hl hcan
  | rollback => exact stepped_finish h hl (fun e => by cases e) rfl rfl
  | close => exact stepped_finish h hl (fun e => by cases e) rfl rfl
  | triage role p text location =>
    refine stepped_same h hl ?_ (fun e => by cases e) rfl
    cases p <;> rfl
  | perfCounter => exact stepped_same h hl rfl (fun e => by cases e) rfl
  | time => exact stepped_same h hl rfl (fun e => by cases e) rfl
  | utcnow => exact stepped_same h hl rfl (fun e => by cases e) rfl
  | uuid4 => exact stepped_same h hl rfl (fun e => by cases e) rfl
  | warn msg extra => exact stepped_same h hl rfl (fun e => by cases e) rfl

/-! ## The cache -/

/-- What is left in the statistics' entry was there, or is what a reader puts there. -/
theorem exec_cache (h : Inv A t₀ w ls) (hl : ls i = some l) {o : Op} (hcan : Performs l o) {e : Entry}
    (he : (World.exec E i o w).2.redis STATS_KEY = some e) :
    w.redis STATS_KEY = some e ∨ ∃ v ex b raw, o = .set STATS_KEY v ex ∧ l.base = some b ∧ e.val = .str raw ∧
      Encoded t₀ w.db b raw := by
  rcases World.exec_redis he with he | ⟨v, ex, rfl, hv⟩ | rfl | ⟨v, n, rfl⟩ | ⟨ttl, rfl⟩
  · exact .inl he
  · obtain ⟨f, at_, hreads, hf, rfl⟩ := hcan rfl
    have hne : l.reads ≠ [] := by
      rw [hreads]
      exact List.cons_ne_nil _ _
    obtain ⟨b, hb, hk⟩ := (h.fits i l hl).reads hne
    exact .inr ⟨_, ex, b, _, rfl, hb, hv, f, at_, hf, rfl, hreads ▸ hk⟩
  · exact absurd rfl hcan
  · exact absurd rfl hcan
  · exact hcan.elim

/-- An operation keeps the invariant, as long as the entry still may hold what it holds. -/
theorem exec_inv (h : Inv A t₀ w ls) (hl : ls i = some l) (o : Op) (hcan : Performs l o) (hen : World.enabled i o w = true)
    (hA : (∀ b, A w b → A (World.exec E i o w).2 b) ∨ (World.exec E i o w).2.redis STATS_KEY = none)
    (hset : ∀ v ex, o = .set STATS_KEY v ex → A (World.exec E i o w).2 l.base) :
    ∃ l', Moves l o (World.exec E i o w).1 l' ∧ Inv A t₀ (World.exec E i o w).2 (update ls i (some l')) ∧
      Tracks A i w (World.exec E i o w).2 l l' o (World.exec E i o w).1 := by
  obtain ⟨l', hm, hkept, hfits, htracks⟩ := exec_fits h hl o hcan hen
  refine ⟨l', hm, ⟨hkept.history, fun j hj => ?_, fun j u hu => ?_, fun e he => ?_⟩, htracks⟩
  · obtain ⟨e, hj⟩ := update_none hj
    exact hkept.others j .idle e (h.idle j hj)
  · rcases update_some hu with ⟨rfl, rfl⟩ | ⟨e, hu⟩
    · exact hfits
    · exact (h.fits j u hu).frame hkept e
  · rcases exec_cache h hl hcan he with hold | ⟨v, ex, b, raw, rfl, hb, hv, henc⟩
    · obtain ⟨b, hb, hknown⟩ := h.cache e hold
      rcases hA with hA | hA
      · refine ⟨b, hA b hb, fun b' hb' => ?_⟩
        obtain ⟨raw, hv, henc⟩ := hknown b' hb'
        exact ⟨raw, hv, henc.grows hkept.grows⟩
      · rw [hA] at he
        cases he
    · refine ⟨l.base, hset v ex rfl, fun b' hb' => ?_⟩
      rw [hb] at hb'
      cases hb'
      exact ⟨raw, hv, henc.grows hkept.grows⟩

/-- A request begins with nothing. -/
theorem start_inv (h : Inv A t₀ w ls) (hi : ls i = none) (c : App × Call) (floor : Nat) :
    Inv A t₀ w (update ls i (some (.begun c floor))) := by
  refine ⟨h.history, fun j hj => ?_, fun j u hu => ?_, h.cache⟩
  · obtain ⟨e, hj⟩ := update_none hj
    exact h.idle j hj
  · rcases update_some hu with ⟨rfl, rfl⟩ | ⟨e, hu⟩
    · exact ⟨h.idle j hi, fun _ e => (by cases e), fun hr => absurd rfl hr, fun _ _ e => by cases e⟩
    · exact h.fits j u hu

/-! ## Runs -/

/-- Committed rows, and nobody at work. -/
def opened (t : Table) : Db := ⟨t, [], fun _ => [], fun _ => none, fun _ => none⟩

theorem inv_initial (h₀ : w.db = opened t₀) (hcache : w.redis STATS_KEY ≠ none → A w none) : Inv A t₀ w fun _ => none := by
  refine ⟨?_, fun i _ => ?_, fun _ _ h => (by cases h), fun e he => ⟨none, hcache (by rw [he]; simp), fun _ h => by cases h⟩⟩
  · rw [h₀]
    exact .nil
  · rw [h₀]
    exact ⟨rfl, fun _ => ⟨fun h => (by cases h), fun h => (by cases h)⟩, trivial, rfl⟩

/-- Requests on any replicas, in any order, from `w₀`. -/
def RequestRun (E : Env) (w₀ : World) (P : Pool (machine E) (App × Call) Reply) : Prop := Pool.Steps serve (.fresh w₀) P

/-- `A none`: the statistics' entry may begin with anything in it. -/
def outline (E : Env) (A : Option Nat → Prop) (t₀ : Table) : Outline (machine E) (App × Call) Reply Loc where
  toProtocol := protocol
  post := Post
  inv w ls := Inv (fun _ => A) t₀ w ls ∧ ∀ i l, ls i = some l → l.seen ≠ none → A l.base
  belongs c l := l.call = c

theorem outline_sound (E : Env) {A : Option Nat → Prop} (hA : ∀ b, A (some b)) (t₀ : Table) : (outline E A t₀).Sound serve where
  start := by
    intro w ls i c h hi
    obtain ⟨hinv, hseen⟩ := h
    refine ⟨.begun c 0, ⟨start_inv hinv hi c 0, fun j u hu hs => ?_⟩, rfl, serve_follows c 0⟩
    rcases update_some hu with ⟨rfl, rfl⟩ | ⟨e, hu⟩
    · exact absurd rfl hs
    · exact hseen j u hu hs
  exec := by
    intro w ls i l o h hl hcan hen
    obtain ⟨hinv, hseen⟩ := h
    have hset : ∀ v ex, o = .set STATS_KEY v ex → A l.base := by
      intro v ex e
      subst e
      obtain ⟨f, at_, hreads, -⟩ := hcan rfl
      obtain ⟨b, hb, -⟩ := (hinv.fits i l hl).reads (by rw [hreads]; exact List.cons_ne_nil _ _)
      rw [hb]
      exact hA b
    obtain ⟨l', hm, hinv', htracks⟩ := exec_inv (E := E) hinv hl o hcan hen (.inl fun _ => id) hset
    refine ⟨l', hm, ⟨hinv', fun j u hu hs => ?_⟩, fun c hc => htracks.call.trans hc⟩
    rcases update_some hu with ⟨rfl, rfl⟩ | ⟨e, hu⟩
    · rcases htracks.seen hs with ⟨e1, e2⟩ | ha
      · rw [e2]
        exact hseen j l hl (e1 ▸ hs)
      · exact ha
    · exact hseen j u hu hs

theorem request_run {A : Option Nat → Prop} (hA : ∀ b, A (some b)) {w₀ : World} (h₀ : w₀.db = opened t₀)
    (hcache : w₀.redis STATS_KEY ≠ none → A none) {P : Pool (machine E) (App × Call) Reply} (hP : RequestRun E w₀ P) :
    (outline E A t₀).Holds P :=
  Outline.keeps (outline_sound E hA t₀) hP
    (Outline.fresh_holds ⟨inv_initial h₀ hcache, fun _ _ h => by cases h⟩)

end

/-! ## A replica and a complaint -/

/-- A replica that triages by the rules. -/
def replica : App := ⟨⟨.rules, .rules, 86400⟩, 30⟩

def leak : ComplaintCreate where
  text := ⟨"a pipe leaks at the corner".toList, by decide, by decide, by decide⟩
  location := ⟨"sector g-11".toList, by decide, by decide, by decide⟩
  reporterContact := none

def pothole : Complaint where
  id := 7
  text := "a deep pothole".toList
  location := "street 12".toList
  reporterContact := none
  category := .roads
  priority := .normal
  status := .open_
  aiSummary := some "pothole".toList
  triagedBy := "rules".toList
  triageLatencyMs := 1
  createdAt := 0
  updatedAt := 0

def potholes : Table := ⟨[pothole], List.nodup_singleton _⟩

end CivicPulse.Request
