/-
  CivicPulse.Runs.Outages — the same requests served twice, once with Redis commands that
  fail, once without.

  Both times every request gets the same id and the same times, and the same statements of
  it are refused, from one table and an empty Redis on. A failing command may or may not have
  taken effect. The provider is a function of the text and the location.
  - `turn_unseen` / `twins_beside`: one request, and all of them.
  - `hit_fails_open`: the limiter.
  - `outages_invisible`: as long as texts of one hash get answers that can both be stored or
    both cannot, the outages do not show.
  - `outage_visible`: they do where one can and the other cannot.
-/

import CivicPulse.Runs.Answers
import CivicPulse.Runs.RateLimit
import CivicPulse.Runs.Storable
import CivicPulse.Services.Writes

namespace CivicPulse.Outages

open Text Lang

/-! ## Rows without what triage says -/

/-- The row as it would be without triage. -/
def bare (c : Complaint) : Complaint :=
  { c with category := .other, priority := .normal, aiSummary := none, triagedBy := [], triageLatencyMs := 0 }

/-- The same rows but for what triage says. -/
def Same (t t' : Table) : Prop := t.rows.map bare = t'.rows.map bare

section

variable {t t' : Table} {c c' : Complaint} {id : Uuid}

theorem Same.length (h : Same t t') : t.rows.length = t'.rows.length := by
  have := congrArg List.length h
  rwa [List.length_map, List.length_map] at this

theorem Same.ids (h : Same t t') : t.ids = t'.ids := by
  have hids : ∀ t : Table, t.ids = (t.rows.map bare).map (·.id) := by
    intro t
    rw [List.map_map]
    rfl
  rw [hids, hids, show t.rows.map bare = t'.rows.map bare from h]

theorem Same.find (h : Same t t') (id : Uuid) : (t.find id).map bare = (t'.find id).map bare := by
  have hfind : ∀ t : Table, (t.find id).map bare = (t.rows.map bare).find? (·.id == id) := by
    intro t
    rw [List.find?_map]
    rfl
  rw [hfind, hfind, show t.rows.map bare = t'.rows.map bare from h]

theorem id_of_bare (h : bare c = bare c') : c.id = c'.id := show (bare c).id = (bare c').id by rw [h]

theorem status_of_bare (h : bare c = bare c') : c.status = c'.status := show (bare c).status = (bare c').status by rw [h]

theorem Same.insert (h : Same t t') (hc : bare c = bare c') : Same (t.insert c) (t'.insert c') := by
  have hid := id_of_bare hc
  by_cases hm : c.id ∈ t.ids
  · have hm' : c'.id ∈ t'.ids := by rwa [← hid, ← h.ids]
    rw [Table.insert, dif_pos hm, Table.insert, dif_pos hm']
    exact h
  · have hm' : c'.id ∉ t'.ids := by rwa [← hid, ← h.ids]
    rw [Same, Table.rows_insert hm, Table.rows_insert hm', List.map_append, List.map_append,
      show t.rows.map bare = t'.rows.map bare from h, List.map_singleton, List.map_singleton, hc]

theorem Same.setStatus (h : Same t t') (id : Uuid) (s : Status) (at_ : Int) :
    Same (t.setStatus id s at_) (t'.setStatus id s at_) := by
  have hset : ∀ t : Table, (t.setStatus id s at_).rows.map bare =
      (t.rows.map bare).map fun c => if c.id = id then { c with status := s, updatedAt := at_ } else c := by
    intro t
    rw [Table.setStatus, List.map_map, List.map_map]
    refine List.map_congr_left fun c _ => ?_
    simp only [Function.comp_apply]
    by_cases e : c.id = id
    · rw [if_pos e, if_pos (show (bare c).id = id from e)]
      rfl
    · rw [if_neg e, if_neg (show (bare c).id ≠ id from e)]
  rw [Same, hset, hset, show t.rows.map bare = t'.rows.map bare from h]

end

/-- The same exception, or the same row but for what triage says; and the same table after. -/
def SameEnd (x x' : Except Exc Complaint × Table) : Prop := x.1.map bare = x'.1.map bare ∧ Same x.2 x'.2

theorem met_same {t t' : Table} (h : Same t t') {x x' : Except Exc Complaint × Table} (hx : SameEnd x x') (f : Option Str) :
    SameEnd (met f t x) (met f t' x') := by
  cases f with
  | some cls => exact ⟨rfl, h⟩
  | none => exact hx

theorem created_same {t t' : Table} {c c' : Complaint} (h : Same t t') (hc : bare c = bare c')
    (hfit : c.Constraints ∧ int4 c.triageLatencyMs = true ↔ c'.Constraints ∧ int4 c'.triageLatencyMs = true) (f g : Option Str) :
    SameEnd (created f g t c) (created f g t' c') := by
  have hid := id_of_bare hc
  refine met_same h ?_ f
  by_cases hf : c.Constraints ∧ int4 c.triageLatencyMs = true
  · rw [if_pos hf, if_pos (hfit.mp hf), ← hid, ← h.ids]
    split
    · exact ⟨rfl, h⟩
    · have hend : SameEnd (.ok c, t.insert c) (.ok c', t'.insert c') := ⟨congrArg Except.ok hc, h.insert hc⟩
      exact met_same h hend g
  · rw [if_neg hf, if_neg fun hf' => hf (hfit.mpr hf')]
    exact ⟨rfl, h⟩

theorem moved_same {t t' : Table} (hs : Same t t') (f g h : Option Str) (id : Uuid) (target : Status) (at_ : Int) :
    SameEnd (moved f g h t id target at_) (moved f g h t' id target at_) := by
  have hfind := hs.find id
  refine met_same hs ?_ f
  rcases hr : t.find id with _ | c
  · rw [hr, Option.map_none, eq_comm, Option.map_eq_none_iff] at hfind
    rw [hfind]
    exact ⟨rfl, hs⟩
  · rw [hr, Option.map_some, eq_comm, Option.map_eq_some_iff] at hfind
    obtain ⟨c', hr', hc⟩ := hfind
    have hstatus := status_of_bare hc
    simp only [hr', hstatus]
    split
    · have hend : SameEnd (.ok { c with status := target, updatedAt := at_ }, t.setStatus id target at_)
          (.ok { c' with status := target, updatedAt := at_ }, t'.setStatus id target at_) := by
        refine ⟨congrArg Except.ok ?_, hs.setStatus id target at_⟩
        exact congrArg (fun c : Complaint => { c with status := target, updatedAt := at_ }) hc.symm
      exact met_same hs (met_same hs hend h) g
    · exact ⟨rfl, hs⟩

section

variable [Platform] {E : Env} {i : Nat} {w : World} {α : Type} {V : Str → RVal → Prop} {svc : TriageService}
  {prov : Str → Str → TriageResult}

/-! ## Requests -/

/-- The row of a submission. -/
def rowOf (E : Env) (svc : TriageService) (data : ComplaintCreate) (r : TriageResult) (latency : Int) : Complaint :=
  ⟨E.uuid 0, data.text.str, data.location.str, data.reporterContact.map (·.str), r.category, r.priority, .open_, some r.summary,
    svc.provider.name, latency, E.utc 0 0, E.utc 0 1⟩

/-- A request draws one id and one pair of times. -/
structure Steady (E : Env) : Prop where
  uuid : ∀ n, E.uuid n = E.uuid 0
  utc : ∀ n, E.utc n = E.utc 0

/-- The end of a session adds nothing. -/
theorem ended_adds (r : Except Exc α) (w : World) : Adds V w (ended E i r w) := by
  cases r with
  | ok a => exact exec_adds (o := .close) trivial w
  | error e => exact (exec_adds (o := .rollback) trivial w).trans (exec_adds (o := .close) trivial _)

theorem ended_clock (r : Except Exc α) (w : World) : w.clock ≤ (ended E i r w).clock := by
  cases r with
  | ok a => exact World.clock_le_exec (i := i) .close
  | error e => exact (World.clock_le_exec (i := i) .rollback).trans (World.clock_le_exec (i := i) .close)

omit [Platform] in
/-- What follows the triage of a submission. -/
theorem uses_store (d : Draft) : (do
    let complaint ← Repository.add d
    Repository.commit
    StatsService.invalidate
    return complaint : Code Complaint).Uses (Puts V) := by
  have hdrop : StatsService.invalidate.Uses (Puts V) := JsonCache.uses_delete trivial fun _ _ => trivial
  refine Prog.uses_bind ⟨trivial, fun r => uses_ofExcept r⟩ fun c => ?_
  exact Prog.uses_bind ⟨trivial, fun r => uses_ofExcept r⟩ fun _ => Prog.uses_bind hdrop fun _ => trivial

omit [Platform] in
theorem uses_changeStatus (id : Uuid) (target : Status) : (ComplaintService.changeStatus id target).Uses (Puts V) := by
  have hdrop : StatsService.invalidate.Uses (Puts V) := JsonCache.uses_delete trivial fun _ _ => trivial
  refine Prog.uses_bind ⟨trivial, fun r => uses_ofExcept r⟩ fun found => ?_
  cases found with
  | none => trivial
  | some c =>
    show Prog.Uses (S := sig) (Puts V) (if canTransition c.status target = true then _ else _)
    split
    · refine Prog.uses_bind ⟨trivial, fun r => Prog.uses_bind (uses_ofExcept r) fun _ => trivial⟩ fun c => ?_
      exact Prog.uses_bind ⟨trivial, fun r => uses_ofExcept r⟩ fun _ => Prog.uses_bind hdrop fun _ => trivial
    · exact Prog.uses_bind ⟨trivial, fun _ => trivial⟩ fun _ => trivial

/-- When a submission is stored. -/
def storesAt (E : Env) (svc : TriageService) (i : Nat) (data : ComplaintCreate) (w : World) : Nat :=
  ((svc.triage (uuidText (World.exec E i .uuid4 w).1) data.text.str data.location.str).run (machine E) i
    (World.exec E i .uuid4 w).2).2.ticks

/-- What a submission ends in, if it is stored by the `n`-th operation. -/
def Submitted (E : Env) (svc : TriageService) (prov : Str → Str → TriageResult) (asked : List (Str × Str)) (data : ComplaintCreate)
    (n : Nat) (w : World) (r : Except Exc Complaint) (w' : World) : Prop :=
  Sourced svc prov ((data.text.str, data.location.str) :: asked) w' ∧
    ∃ t l latency, Source ((data.text.str, data.location.str) :: asked) (cacheKey data.text.str data.location.str) t l ∧
      Within w.clock latency w'.clock ∧ (r, w'.db.table) =
        created (E.dbFault n) (E.dbFault (n + 1)) w.db.table (rowOf E svc data (prov t l) latency)

theorem create_alone (hs : Steady E) (hp : Gives E svc prov) {asked : List (Str × Str)} (h : Sourced svc prov asked w)
    (hidle : w.db.pending i = []) (data : ComplaintCreate) :
    wp (machine E) i (ComplaintService.create svc data)
      (fun r w' => Submitted E svc prov asked data (storesAt E svc i data w) w r w') w := by
  have h₀ : Sourced svc prov asked (World.exec E i .uuid4 w).2 := h.kept (exec_adds (o := .uuid4) trivial w)
  rw [ComplaintService.create, wp_op, wp_bind]
  have hstores : wp (machine E) i (svc.triage (uuidText (World.exec E i .uuid4 w).1) data.text.str data.location.str)
      (fun _ w' => w'.ticks = storesAt E svc i data w) (World.exec E i .uuid4 w).2 := rfl
  refine wp_mono (fun r w₁ h₁ => ?_) (wp_and (triage_sourced hp h₀ _ data.text.str data.location.str)
    (wp_and hstores (triage_quiet svc _ _ _ _)))
  obtain ⟨⟨⟨t, l, latency, cached, hsource, hlatency, rfl⟩, h₁⟩, hticks, hquiet⟩ := h₁
  have hdb : w₁.db = w.db := hquiet.db
  have hrow : (ComplaintService.draft (World.exec E i .uuid4 w).1 data (prov t l)
      ⟨some (prov t l), text svc.provider.name, latency, false, cached, none⟩).row (E.utc w₁.ticks 0) (E.utc w₁.ticks 1) =
      some (rowOf E svc data (prov t l) latency) := by
    rw [Draft.row, show (ComplaintService.draft (World.exec E i .uuid4 w).1 data (prov t l) _).triagedBy =
      .str (codes svc.provider.name) from rfl, strOf_codes, hs.utc w₁.ticks]
    show some _ = some _
    rw [rowOf, ← hs.uuid w.ticks]
    rfl
  show wp (machine E) i (do
    let complaint ← Repository.add (ComplaintService.draft (World.exec E i .uuid4 w).1 data (prov t l)
      ⟨some (prov t l), text svc.provider.name, latency, false, cached, none⟩)
    Repository.commit
    StatsService.invalidate
    return complaint) (fun r w' => Submitted E svc prov asked data (storesAt E svc i data w) w r w') w₁
  refine wp_mono (fun r w₂ h₂ => ?_) (wp_and (store_created (by rw [hdb]; exact hidle) hrow) (wp_and (clock_le_alone _ w₁)
    (adds_alone (V := fun _ _ => False) (uses_store _) w₁)))
  obtain ⟨hcreated, hclock, hadds⟩ := h₂
  rw [hdb, hticks] at hcreated
  have hbegin : w.clock ≤ (World.exec E i .uuid4 w).2.clock := World.clock_le_exec (i := i) .uuid4
  refine ⟨h₁.kept hadds, t, l, latency, hsource, ⟨hlatency.1, ?_⟩, hcreated⟩
  have := (hlatency.mono hclock).2
  have hle : (w₂.clock - (World.exec E i .uuid4 w).2.clock) * 1000 ≤ (w₂.clock - w.clock) * 1000 := by linarith
  exact this.trans hle

omit [Platform] in
theorem puts_ofTriage {key : Str} (hkey : key ≠ STATS_KEY) {o : Op} (h : OfTriage key o) : Puts (fun k _ => k ≠ STATS_KEY) o := by
  cases o with
  | set k v ex => exact fun _ => (show k = key from h) ▸ hkey
  | incr k =>
    rcases h with rfl | rfl
    · exact not_ours.1
    · exact not_ours.2.1
  | pushTrim k v n => exact (show k = RECENT_KEY from h) ▸ not_ours.2.2
  | incrExpire k t => exact h.elim
  | _ => trivial

theorem uses_create (svc : TriageService) (data : ComplaintCreate) :
    (ComplaintService.create svc data).Uses (Puts fun k _ => k ≠ STATS_KEY) := by
  refine ⟨trivial, fun id => Prog.uses_bind (Prog.uses_mono (fun _ => puts_ofTriage (cacheKey_ne _ _)) (triage_ofTriage svc _ _ _))
    fun o => ?_⟩
  split
  · trivial
  · exact uses_store _

/-- The texts that were submitted. -/
def asked (past : List Served) : List (Str × Str) :=
  past.filterMap fun s => match s.call with
    | .create data => some (data.text.str, data.location.str)
    | _ => none

/-- The statistics that were computed. -/
def Computed (past : List Served) (s : StatsOut) : Prop := ∃ c ∈ past, c.result = .ok (.stats s false)

/-- What is left when these requests have been served. -/
structure Ready (app : App) (prov : Str → Str → TriageResult) (past : List Served) (w : World) : Prop where
  idle : ∀ i, w.db.pending i = []
  sourced : Sourced app.triage prov (asked past) w
  stored : Stored (Computed past) w

variable {app : App} {past : List Served}

theorem Stored.more {w : World} (h : Stored (Computed past) w) (c : Served) : Stored (Computed (c :: past)) w := by
  intro e he
  obtain ⟨t, at_, hlen, ⟨d, hd, hr⟩, hval⟩ := h e he
  exact ⟨t, at_, hlen, ⟨d, List.mem_cons_of_mem _ hd, hr⟩, hval⟩

/-- What a request returned, and the table after it. -/
def Ends (c : Served) (x : Except Exc Complaint × Table) : Prop := c.result = x.1.map Reply.complaint ∧ c.after.db.table = x.2

theorem ends_of {c : Served} {x : Except Exc Complaint × Table} {r : Except Exc Complaint} {w₁ : World}
    (hr : c.result = r.map Reply.complaint) (hafter : c.after = ended E i r w₁) (hx : (r, w₁.db.table) = x) : Ends c x := by
  subst hx
  exact ⟨hr, by rw [hafter, ended_table]⟩

/-- How a submission is served. -/
theorem create_served (hs : Steady E) (hp : Gives E app.triage prov) (h : Ready app prov past w) (i : Nat)
    (data : ComplaintCreate) :
    Ready app prov (served E app i (.create data) w :: past) (served E app i (.create data) w).after ∧
      ∃ t l latency, Source ((data.text.str, data.location.str) :: asked past) (cacheKey data.text.str data.location.str) t l ∧
        Within w.clock latency (served E app i (.create data) w).after.clock ∧
        Ends (served E app i (.create data) w) (created (E.dbFault (storesAt E app.triage i data w))
          (E.dbFault (storesAt E app.triage i data w + 1)) w.db.table (rowOf E app.triage data (prov t l) latency)) := by
  obtain ⟨r, w₁, hr, hafter, ⟨hsourced, t, l, latency, hsource, hlatency, hcreated⟩, hadds⟩ :=
    served_of app i (.create data) rfl
      (wp_and (create_alone hs hp h.sourced (h.idle i) data) (adds_alone (uses_create app.triage data) w))
  refine ⟨⟨idle_served h.idle i _, ?_, ?_⟩, t, l, latency, hsource, ?_, ends_of hr hafter hcreated⟩
  · rw [hafter]
    exact hsourced.kept (ended_adds r w₁)
  · rw [hafter]
    exact ((h.stored.kept hadds).kept (ended_adds r w₁)).more _
  · rw [hafter]
    exact hlatency.mono (ended_clock r w₁)

theorem changeStatus_served (hs : Steady E) (h : Ready app prov past w) (i : Nat) (id : Uuid) (target : Status) :
    Ready app prov (served E app i (.changeStatus id target) w :: past) (served E app i (.changeStatus id target) w).after ∧
      Ends (served E app i (.changeStatus id target) w) (moved (E.dbFault w.ticks) (E.dbFault (w.ticks + 1))
        (E.dbFault (w.ticks + 2)) w.db.table id target (E.utc 0 0)) := by
  obtain ⟨r, w₁, hr, hafter, hmoved, hadds⟩ := served_of app i (.changeStatus id target) rfl
    (wp_and (changeStatus_moved hs.utc (h.idle i) id target) (adds_alone (V := fun _ _ => False) (uses_changeStatus id target) w))
  refine ⟨⟨idle_served h.idle i _, ?_, ?_⟩, ends_of hr hafter hmoved⟩
  · rw [hafter]
    exact (h.sourced.kept hadds).kept (ended_adds r w₁)
  · rw [hafter]
    exact ((h.stored.kept (hadds.mono fun _ _ h => h.elim)).kept (ended_adds r w₁)).more _

/-- Code that writes no answer of the provider. -/
theorem Sourced.beside {asked : List (Str × Str)} {w w' : World} (h : Sourced svc prov asked w)
    (ha : Adds (fun k _ => k = STATS_KEY) w w') : Sourced svc prov asked w' := by
  refine h.adds (ha.mono fun k _ hk hprefix => ?_)
  rw [hk] at hprefix
  exact absurd hprefix (by decide)

/-- What a get answers from this table, after these requests: it counts, or knows what was
    counted, or one of its statements from the `n`-th operation on is refused. -/
def Told (E : Env) (n : Nat) (t : Table) (past : List Served) (r : Except Exc Reply) : Prop :=
  (∃ at_, r = .ok (.stats ((Figures.of t).stats at_) false)) ∨ (∃ s, Computed past s ∧ r = .ok (.stats s true)) ∨
    (∃ e, r = .error e) ∧ (E.Reached n 5 → ¬ t.rows.length < 2 ^ 63)

/-- How statistics are served. -/
theorem stats_told (h : Ready app prov past w) (i : Nat) :
    Ready app prov (served E app i .stats w :: past) (served E app i .stats w).after ∧
      (served E app i .stats w).after.db.table = w.db.table ∧
        Told E (countsAt E i w) w.db.table past (served E app i .stats w).result := by
  obtain ⟨r, w₁, hr, hafter, hdb, hgets⟩ := served_of app i .stats rfl
    (stats_kept h.stored app.statsTtl (h.idle i))
  have hadds : Adds (fun k _ => k = STATS_KEY) w w₁ := by
    rcases hgets with (⟨at_, -, -, hadds⟩ | ⟨-, -, hadds⟩) | ⟨-, hadds⟩
    · exact hadds.mono fun _ _ hv => hv.1
    · exact hadds.mono fun _ _ hv => hv.elim
    · exact hadds.mono fun _ _ hv => hv.elim
  have hstored : Stored (Computed (served E app i .stats w :: past)) w₁ := by
    intro e he
    have hold : w.redis STATS_KEY = some e → _ := h.stored.more (served E app i .stats w) e
    rcases hgets with (⟨at_, rfl, hlen, hadds⟩ | ⟨-, -, hadds⟩) | ⟨-, hadds⟩
    · rcases hadds STATS_KEY e (.inl rfl) he with he | ⟨-, hv⟩
      · exact hold he
      · exact ⟨w.db.table, at_, hlen, ⟨_, List.mem_cons_self, hr⟩, hv⟩
    · exact hold ((hadds STATS_KEY e (.inl rfl) he).resolve_right id)
    · exact hold ((hadds STATS_KEY e (.inl rfl) he).resolve_right id)
  refine ⟨⟨idle_served h.idle i _, ?_, ?_⟩, ?_, ?_⟩
  · rw [hafter]
    exact (h.sourced.beside hadds).kept (ended_adds r w₁)
  · rw [hafter]
    exact hstored.kept (ended_adds r w₁)
  · rw [hafter, ended_table, hdb]
  · rcases hgets with (⟨at_, rfl, -⟩ | ⟨⟨e, rfl⟩, hlen, -⟩) | ⟨⟨s, hs, rfl⟩, -⟩
    · exact .inl ⟨at_, hr⟩
    · exact .inr (.inr ⟨⟨e, hr⟩, hlen⟩)
    · exact .inr (.inl ⟨s, hs, hr⟩)

/-! ## With outages, and without -/

omit [Platform] in
theorem rowOf_bare {E E' : Env} (huuid : E.uuid 0 = E'.uuid 0) (hutc : E.utc 0 = E'.utc 0) (data : ComplaintCreate)
    (r r' : TriageResult) (n n' : Int) : bare (rowOf E svc data r n) = bare (rowOf E' svc data r' n') := by
  unfold rowOf bare
  rw [huuid, hutc]

omit [Platform] in
/-- Whether a row can be stored is a matter of the summary's characters. -/
theorem rowOf_fits {E E' : Env} {data : ComplaintCreate} {r r' : TriageResult} {n n' : Int}
    (hnul : hasNul r.summary = hasNul r'.summary) (hn' : 0 ≤ n' ∧ n' < 2 ^ 31)
    (h : (rowOf E svc data r n).Constraints) : (rowOf E' svc data r' n').Constraints ∧ int4 n' = true := by
  have hno : NoNul data r.summary svc.provider.name := (constraints_iff data r h.triagedByLen h.latencyNonneg _ _ _).mp h
  refine ⟨(constraints_iff data r' h.triagedByLen hn'.1 _ _ _).mpr { hno with summary := hnul ▸ hno.summary }, ?_⟩
  simp only [int4, Bool.and_eq_true, decide_eq_true_eq]
  omega

omit [Platform] in
/-- A latency of less than 2³¹ milliseconds. -/
theorem Within.fits {since now : ℚ} {n : Int} (h : Within since n now) (hbrief : (now - since) * 1000 < 2 ^ 31) :
    0 ≤ n ∧ n < 2 ^ 31 := by
  have hlt : (n : ℚ) < ((2 ^ 31 : Int) : ℚ) := by
    push_cast
    exact h.2.trans_lt hbrief
  exact ⟨h.1, by exact_mod_cast hlt⟩

/-- The reply without what triage says of the complaint. -/
def bareReply : Reply → Reply
  | .complaint c => .complaint (bare c)
  | reply => reply

omit [Platform] in
theorem SameEnd.reply {x x' : Except Exc Complaint × Table} (h : SameEnd x x') :
    (x.1.map Reply.complaint).map bareReply = (x'.1.map Reply.complaint).map bareReply := by
  have hmap : ∀ r : Except Exc Complaint, (r.map Reply.complaint).map bareReply = (r.map bare).map Reply.complaint := by
    intro r
    cases r <;> rfl
  rw [hmap, hmap, h.1]

/-- A request, and what the program does not decide: with outages, and without. -/
structure Turn where
  tid : Nat
  call : Call
  env : Env
  healthy : Env

/-- What the connection does to the statements of a write. -/
def faultsOf (E : Env) (app : App) (i : Nat) (w : World) : Call → List (Option Str)
  | .create data => [E.dbFault (storesAt E app.triage i data w), E.dbFault (storesAt E app.triage i data w + 1)]
  | .changeStatus _ _ => [E.dbFault w.ticks, E.dbFault (w.ticks + 1), E.dbFault (w.ticks + 2)]
  | _ => []

/-- Both times the same id, the same times, the same provider, and the same statements that
    the database refuses. -/
structure Turn.Fair (app : App) (prov : Str → Str → TriageResult) (w w' : World) (x : Turn) : Prop where
  call : (∃ data, x.call = .create data) ∨ (∃ id target, x.call = .changeStatus id target) ∨ x.call = .stats
  answers : x.healthy.Healthy
  faults : faultsOf x.env app x.tid w x.call = faultsOf x.healthy app x.tid w' x.call
  steady : Steady x.env ∧ Steady x.healthy
  uuid : x.env.uuid 0 = x.healthy.uuid 0
  utc : x.env.utc 0 = x.healthy.utc 0
  gives : Gives x.env app.triage prov ∧ Gives x.healthy app.triage prov

def Turn.out (x : Turn) (app : App) (w : World) : Served := served x.env app x.tid x.call w

def Turn.fine (x : Turn) (app : App) (w : World) : Served := served x.healthy app x.tid x.call w

/-- Requests served twice from an empty Redis on, newest first: with outages, and without. -/
inductive Twins (app : App) (prov : Str → Str → TriageResult) (C : List Served → World → World → Turn → Prop) (t₀ : Table) :
    List Served → World → List Served → World → Prop
  | start : Twins app prov C t₀ [] (.initial t₀) [] (.initial t₀)
  | turn {past past' : List Served} {w w' : World} (x : Turn) : Twins app prov C t₀ past w past' w' → x.Fair app prov w w' →
      C past w w' x → Twins app prov C t₀ (x.out app w :: past) (x.out app w).after (x.fine app w' :: past') (x.fine app w').after

/-- The outages do not show: not in the table, not in what a write returns; and a get tells
    what it counted, or what a get before it counted. -/
structure Unseen (E : Env) (past : List Served) (w : World) (out fine : Served) : Prop where
  table : Same out.after.db.table fine.after.db.table
  reply : out.call ≠ .stats → out.result.map bareReply = fine.result.map bareReply
  stats : out.call = .stats → Told E (countsAt E out.tid w) w.db.table past out.result

/-- What the provider says of this text holds U+0000 if what it says of a text of the same
    hash does, and the submission takes less than 2³¹ milliseconds. -/
def Plain (app : App) (prov : Str → Str → TriageResult) (past : List Served) (w w' : World) (x : Turn) : Prop :=
  ∀ data, x.call = .create data →
    (∀ t l, (t, l) ∈ asked past → cacheKey t l = cacheKey data.text.str data.location.str →
      hasNul (prov t l).summary = hasNul (prov data.text.str data.location.str).summary) ∧
    ((x.out app w).after.clock - w.clock) * 1000 < 2 ^ 31 ∧ ((x.fine app w').after.clock - w'.clock) * 1000 < 2 ^ 31

/-- Where the two runs are. -/
structure Beside (app : App) (prov : Str → Str → TriageResult) (past : List Served) (w : World) (past' : List Served) (w' : World) :
    Prop where
  out : Ready app prov past w
  fine : Ready app prov past' w'
  same : Same w.db.table w'.db.table
  asked : asked past = asked past'

theorem ready_initial (t₀ : Table) : Ready app prov [] (.initial t₀) :=
  ⟨fun _ => rfl, fun _ _ _ he => absurd he (by simp [World.initial]), fun _ he => absurd he (by simp [World.initial])⟩

/-- The answer for any text of the hash, from one run or the other. -/
theorem source_nul {data : ComplaintCreate} {l₀ : List (Str × Str)}
    (hnul : ∀ t l, (t, l) ∈ l₀ → cacheKey t l = cacheKey data.text.str data.location.str →
      hasNul (prov t l).summary = hasNul (prov data.text.str data.location.str).summary) {t l : Str}
    (h : Source ((data.text.str, data.location.str) :: l₀) (cacheKey data.text.str data.location.str) t l) :
    hasNul (prov t l).summary = hasNul (prov data.text.str data.location.str).summary := by
  obtain ⟨hmem, hkey⟩ := h
  rcases List.mem_cons.mp hmem with he | hmem
  · obtain ⟨rfl, rfl⟩ := Prod.mk.inj he
    rfl
  · exact hnul t l hmem hkey

/-- The next request, with what it leaves in either run. -/
theorem Beside.next {past' : List Served} {w' : World} (h : Beside app prov past w past' w') {c c' : Served} (hcall : c.call = c'.call)
    (hready : Ready app prov (c :: past) c.after) (hready' : Ready app prov (c' :: past') c'.after)
    (hsame : Same c.after.db.table c'.after.db.table) : Beside app prov (c :: past) c.after (c' :: past') c'.after := by
  refine ⟨hready, hready', hsame, ?_⟩
  unfold Outages.asked
  rw [List.filterMap_cons, List.filterMap_cons, hcall, show past.filterMap _ = past'.filterMap _ from h.asked]

/-- A write with the same end in either run. -/
theorem ends_unseen {past' : List Served} {w' : World} (h : Beside app prov past w past' w') {c c' : Served} {call : Call}
    (hcall : c.call = call) (hcall' : c'.call = call) (hwrite : call ≠ .stats) (hready : Ready app prov (c :: past) c.after)
    (hready' : Ready app prov (c' :: past') c'.after) {x x' : Except Exc Complaint × Table} (hc : Ends c x) (hc' : Ends c' x')
    (hend : SameEnd x x') :
    Unseen E past w c c' ∧ Beside app prov (c :: past) c.after (c' :: past') c'.after := by
  have hsame : Same c.after.db.table c'.after.db.table := by
    rw [hc.2, hc'.2]
    exact hend.2
  refine ⟨⟨hsame, fun _ => ?_, fun hstats => absurd (hcall.symm.trans hstats) hwrite⟩, ?_⟩
  · rw [hc.1, hc'.1]
    exact hend.reply
  · exact h.next (hcall.trans hcall'.symm) hready hready' hsame

section

variable {past' : List Served} {w' : World} {E' : Env}

theorem create_unseen (h : Beside app prov past w past' w') {data : ComplaintCreate}
    (hx : Turn.Fair app prov w w' ⟨i, .create data, E, E'⟩) (hplain : Plain app prov past w w' ⟨i, .create data, E, E'⟩) :
    Unseen E past w (served E app i (.create data) w) (served E' app i (.create data) w') ∧
      Beside app prov (served E app i (.create data) w :: past) (served E app i (.create data) w).after
        (served E' app i (.create data) w' :: past') (served E' app i (.create data) w').after := by
  obtain ⟨hnul, hbrief, hbrief'⟩ := hplain data rfl
  simp only [Turn.out, Turn.fine] at hbrief hbrief'
  obtain ⟨hready, t, l, n, hsource, hn, hends⟩ := create_served hx.steady.1 hx.gives.1 h.out i data
  obtain ⟨hready', t', l', n', hsource', hn', hends'⟩ := create_served hx.steady.2 hx.gives.2 h.fine i data
  have hcall : (served E app i (.create data) w).call = .create data := rfl
  have hcall' : (served E' app i (.create data) w').call = .create data := rfl
  generalize served E app i (.create data) w = c at *
  generalize served E' app i (.create data) w' = c' at *
  obtain ⟨hinsert, hcommit⟩ : E.dbFault (storesAt E app.triage i data w) = E'.dbFault (storesAt E' app.triage i data w') ∧
      E.dbFault (storesAt E app.triage i data w + 1) = E'.dbFault (storesAt E' app.triage i data w' + 1) := by
    simpa [faultsOf] using hx.faults
  rw [← hinsert, ← hcommit] at hends'
  -- both answers are for texts of one hash
  rw [← h.asked] at hsource'
  have hsummary : hasNul (prov t l).summary = hasNul (prov t' l').summary :=
    (source_nul hnul hsource).trans (source_nul hnul hsource').symm
  have hfit : (rowOf E app.triage data (prov t l) n).Constraints ∧ int4 n = true ↔
      (rowOf E' app.triage data (prov t' l') n').Constraints ∧ int4 n' = true :=
    ⟨fun hfit => rowOf_fits hsummary (hn'.fits hbrief') hfit.1, fun hfit => rowOf_fits hsummary.symm (hn.fits hbrief) hfit.1⟩
  have hend := created_same h.same (rowOf_bare hx.uuid hx.utc data _ _ _ _) hfit (E.dbFault (storesAt E app.triage i data w))
    (E.dbFault (storesAt E app.triage i data w + 1))
  exact ends_unseen h hcall hcall' (fun hstats => by cases hstats) hready hready' hends hends' hend

theorem changeStatus_unseen (h : Beside app prov past w past' w') {id : Uuid} {target : Status}
    (hx : Turn.Fair app prov w w' ⟨i, .changeStatus id target, E, E'⟩) :
    Unseen E past w (served E app i (.changeStatus id target) w) (served E' app i (.changeStatus id target) w') ∧
      Beside app prov (served E app i (.changeStatus id target) w :: past) (served E app i (.changeStatus id target) w).after
        (served E' app i (.changeStatus id target) w' :: past') (served E' app i (.changeStatus id target) w').after := by
  obtain ⟨hready, hends⟩ := changeStatus_served hx.steady.1 h.out i id target
  obtain ⟨hready', hends'⟩ := changeStatus_served hx.steady.2 h.fine i id target
  have hat : E.utc 0 0 = E'.utc 0 0 := congrFun hx.utc 0
  obtain ⟨hselect, hupdate, hcommit⟩ : E.dbFault w.ticks = E'.dbFault w'.ticks ∧
      E.dbFault (w.ticks + 1) = E'.dbFault (w'.ticks + 1) ∧ E.dbFault (w.ticks + 2) = E'.dbFault (w'.ticks + 2) := by
    simpa [faultsOf] using hx.faults
  rw [← hat, ← hselect, ← hupdate, ← hcommit] at hends'
  have hend := moved_same h.same (E.dbFault w.ticks) (E.dbFault (w.ticks + 1)) (E.dbFault (w.ticks + 2)) id target (E.utc 0 0)
  exact ends_unseen h rfl rfl (fun hstats => by cases hstats) hready hready' hends hends' hend

theorem stats_unseen (h : Beside app prov past w past' w') :
    Unseen E past w (served E app i .stats w) (served E' app i .stats w') ∧
      Beside app prov (served E app i .stats w :: past) (served E app i .stats w).after
        (served E' app i .stats w' :: past') (served E' app i .stats w').after := by
  obtain ⟨hready, htable, htold⟩ := stats_told h.out i
  obtain ⟨hready', htable', -⟩ := stats_told h.fine i
  have hsame : Same (served E app i .stats w).after.db.table (served E' app i .stats w').after.db.table := by
    rw [htable, htable']
    exact h.same
  exact ⟨⟨hsame, fun hno => absurd rfl hno, fun _ => htold⟩, h.next rfl hready hready' hsame⟩

/-- A turn does not show, and leaves the runs side by side. -/
theorem turn_unseen (h : Beside app prov past w past' w') {x : Turn} (hx : x.Fair app prov w w') (hplain : Plain app prov past w w' x) :
    Unseen x.env past w (x.out app w) (x.fine app w') ∧
      Beside app prov (x.out app w :: past) (x.out app w).after (x.fine app w' :: past') (x.fine app w').after := by
  obtain ⟨i, call, E, E'⟩ := x
  rcases hx.call with ⟨data, rfl⟩ | ⟨id, target, rfl⟩ | rfl
  · exact create_unseen h hx hplain
  · exact changeStatus_unseen h hx
  · exact stats_unseen h

end

/-- The runs stay side by side. -/
theorem twins_beside {t₀ : Table} {past' : List Served} {w' : World} (h : Twins app prov (Plain app prov) t₀ past w past' w') :
    Beside app prov past w past' w' := by
  induction h with
  | start => exact ⟨ready_initial t₀, ready_initial t₀, rfl, rfl⟩
  | turn x _ hx hplain ih => exact (turn_unseen ih hx hplain).2

/-! ## The limiter -/

/-- When a hit's command is performed: after the clock is read, if it is. -/
def hitsAt (now : Option ℚ) (w : World) : Nat := if now.isNone then w.ticks + 1 else w.ticks

/-- A hit whose command fails is allowed. -/
theorem hit_open (l : RateLimiter) (i : Nat) (identity : Str) (t : ℚ) {w : World} (hf : E.fault w.ticks ≠ none) :
    ((l.hit identity (some t)).run (machine E) i w).1 = .ok ⟨true, l.limit, 0⟩ := by
  obtain ⟨cls, hans⟩ : ∃ cls, (World.exec E i (.incrExpire (RateLimiter.key identity (l.windowStart t)) (l.window + 1)) w).1 =
      .error (.redisError cls) := by
    show ∃ cls, (Redis.faulty (E.fault w.ticks) _ (w.cache E)).1 = .error (.redisError cls)
    match hfault : E.fault w.ticks with
    | none => exact absurd hfault hf
    | some (.lost cls) => exact ⟨cls, rfl⟩
    | some (.late cls) => exact ⟨cls, rfl⟩
  unfold RateLimiter.hit
  simp only [Prog.ret_bind, exceptRedis_op, Prog.run_op]
  rw [show ((machine E).exec i (.incrExpire (RateLimiter.key identity (l.windowStart t)) (l.window + 1)) w).1 = _ from hans,
    ofExcept_error, Prog.raise_bind, exceptRedis_raise rfl]
  rfl

theorem hit_fails_open (l : RateLimiter) (E : Env) (i : Nat) (identity : Str) (now : Option ℚ) (w : World) :
    ∃ d, ((l.hit identity now).run (machine E) i w).1 = .ok d ∧ (E.fault (hitsAt now w) ≠ none → d.allowed = true) := by
  obtain ⟨d, w', hd⟩ := hit_returns (E := E) (l := l) (i := i) (w := w) identity now
  refine ⟨d, by rw [hd], fun hf => ?_⟩
  have hd : ((l.hit identity now).run (machine E) i w).1 = .ok d := by rw [hd]
  have hopen : ((l.hit identity now).run (machine E) i w).1 = .ok ⟨true, l.limit, 0⟩ := by
    cases now with
    | some t => exact hit_open l i identity t hf
    | none => exact hit_open l i identity (w.now E) (w := (World.exec E i .time w).2) hf
  rw [hopen] at hd
  rw [← Except.ok.inj hd]

/-! ## Outages -/

/-- From an empty Redis on, whatever commands fail in whatever requests: a write raises the
    same or returns the same but for what triage says, and leaves the same rows but for what
    triage says; a get answers what it counts or what one before it counted, unless a
    statement of its own is refused. Hits are decided, and allowed when Redis fails. -/
theorem outages_invisible (app : App) (prov : Str → Str → TriageResult) (t₀ : Table) :
    (∀ past w past' w', Twins app prov (Plain app prov) t₀ past w past' w' → ∀ x : Turn, x.Fair app prov w w' →
      Plain app prov past w w' x → Unseen x.env past w (x.out app w) (x.fine app w')) ∧
    ∀ (l : RateLimiter) (E : Env) (i : Nat) (identity : Str) (now : Option ℚ) (w : World), l.window ≠ 0 →
      ∃ d, ((l.hit identity now).run (machine E) i w).1 = .ok d ∧ (E.fault (hitsAt now w) ≠ none → d.allowed = true) := by
  refine ⟨fun past w past' w' h x hx hplain => ?_, fun l E i identity now w _ => hit_fails_open l E i identity now w⟩
  exact (turn_unseen (twins_beside h) hx hplain).1

end

/-! ## An outage that does not show, and one that does -/

section

def pipeBurst (nul : Bool) : TriageResult where
  category := .water
  priority := .high
  summary := if nul then "pipe\x00burst".toList else "pipe burst".toList
  confidence := .fin ⟨7, 0⟩
  length_le := by cases nul <;> decide
  stripped := by cases nul <;> decide
  oneLine := by cases nul <;> decide
  ne_nil := by cases nul <;> decide
  ge := by decide
  le := by decide

/-- A provider that is upset by a capital letter. -/
def fussy (t _ : Str) : TriageResult := pipeBurst (t.head? == some 'W')

def fussyEnv (id : Uuid) (fault : Option Redis.Fault) : Env :=
  { Env.calm fun _ t l => .ok (some (fussy t l)) with uuid := fun _ => id, fault := fun _ => fault }

def fussyApp : App := ⟨⟨.external "fussy".toList, .rules, 86400⟩, 30⟩

def capitalBody : ComplaintCreate := { burstBody with text := ⟨"Water pipe burst near school".toList, by decide, by decide, by decide⟩ }

/-- A submission while Redis is down, or healthy. -/
def submits (id : Uuid) (data : ComplaintCreate) (fault : Option Redis.Fault) : Turn :=
  ⟨0, .create data, fussyEnv id fault, fussyEnv id none⟩

def down : Option Redis.Fault := some (.lost "ConnectionError".toList)

theorem gives_fussy (id : Uuid) (fault : Option Redis.Fault) : @Gives .ascii (fussyEnv id fault) fussyApp.triage fussy := by
  intro t l a h
  obtain ⟨_, ha⟩ := h
  exact ha

theorem submits_fair (id : Uuid) (data : ComplaintCreate) (fault : Option Redis.Fault) (w w' : World) :
    @Turn.Fair .ascii fussyApp fussy w w' (submits id data fault) := by
  let _ : Platform := .ascii
  refine ⟨.inl ⟨data, rfl⟩, fun _ => rfl, rfl, ?_, rfl, rfl, gives_fussy id fault, gives_fussy id none⟩
  exact ⟨⟨fun _ => rfl, fun _ => rfl⟩, ⟨fun _ => rfl, fun _ => rfl⟩⟩

/-- A submission with Redis down. -/
def first : Turn := submits 1 burstBody down

/-- What `first` leaves: with Redis down, and with a healthy one. -/
def leftDown : World := (@Turn.out .ascii first fussyApp (.initial .empty)).after

def leftFine : World := (@Turn.fine .ascii first fussyApp (.initial .empty)).after

theorem outages_invisible_again :
    (@Turn.out .ascii (submits 2 burstBody down) fussyApp leftDown).result.map bareReply =
      (@Turn.fine .ascii (submits 2 burstBody down) fussyApp leftFine).result.map bareReply ∧
    ∃ d, ((RateLimiter.hit ⟨10, 60⟩ "::1".toList none).run (@machine .ascii (fussyEnv 3 down)) 0 leftDown).1 = .ok d ∧
      d.allowed = true := by
  have hbrief : ((@Turn.out .ascii first fussyApp (.initial .empty)).after.clock - (World.initial .empty).clock) * 1000 < 2 ^ 31 ∧
      ((@Turn.fine .ascii first fussyApp (.initial .empty)).after.clock - (World.initial .empty).clock) * 1000 < 2 ^ 31 ∧
      ((@Turn.out .ascii (submits 2 burstBody down) fussyApp leftDown).after.clock - leftDown.clock) * 1000 < 2 ^ 31 ∧
      ((@Turn.fine .ascii (submits 2 burstBody down) fussyApp leftFine).after.clock - leftFine.clock) * 1000 < 2 ^ 31 := by
    decide +kernel
  have hplain : @Plain .ascii fussyApp fussy [] (.initial .empty) (.initial .empty) first := by
    intro data hdata
    cases hdata
    exact ⟨fun t l hmem => absurd hmem List.not_mem_nil, hbrief.1, hbrief.2.1⟩
  have hrun := @Twins.turn .ascii _ _ _ _ _ _ _ _ first (@Twins.start .ascii fussyApp fussy (@Plain .ascii fussyApp fussy) .empty)
    (submits_fair 1 burstBody down _ _) hplain
  have hplain' : @Plain .ascii fussyApp fussy [@Turn.out .ascii first fussyApp (.initial .empty)] leftDown leftFine
      (submits 2 burstBody down) := by
    intro data hdata
    cases hdata
    refine ⟨fun t l hmem _ => ?_, hbrief.2.2.1, hbrief.2.2.2⟩
    -- the same text
    obtain ⟨rfl, rfl⟩ : t = burstBody.text.str ∧ l = burstBody.location.str := by
      simpa [asked, Turn.out, served, first, submits] using hmem
    rfl
  have h := @outages_invisible .ascii fussyApp fussy .empty
  let _ : Platform := .ascii
  obtain ⟨d, hd, hopen⟩ := h.2 ⟨10, 60⟩ (fussyEnv 3 down) 0 "::1".toList none leftDown (by decide)
  refine ⟨(h.1 _ _ _ _ hrun _ (submits_fair 2 burstBody down _ _) hplain').reply fun hstats => ?_, d, hd, hopen ?_⟩
  · cases hstats
  · intro hnone
    cases hnone

/-- The second text has the first one's hash, and the provider says U+0000 of it: a healthy
    Redis has the answer for the first, without one the row is refused. -/
theorem outage_visible : ∃ past w past' w' x,
    @Twins .ascii fussyApp fussy (fun _ _ _ _ => True) .empty past w past' w' ∧ @Turn.Fair .ascii fussyApp fussy w w' x ∧
      (@Turn.out .ascii x fussyApp w).result.toBool = false ∧ (@Turn.fine .ascii x fussyApp w').result.toBool = true ∧
      ¬ @Unseen .ascii x.env past w (@Turn.out .ascii x fussyApp w) (@Turn.fine .ascii x fussyApp w') := by
  have hout : (@Turn.out .ascii (submits 2 capitalBody down) fussyApp leftDown).result.toBool = false := by decide +kernel
  have hfine : (@Turn.fine .ascii (submits 2 capitalBody down) fussyApp leftFine).result.toBool = true := by decide +kernel
  have hbool : ∀ r : Except Exc Reply, (r.map bareReply).toBool = r.toBool := by
    intro r
    cases r <;> rfl
  let _ : Platform := .ascii
  refine ⟨_, _, _, _, submits 2 capitalBody down, @Twins.turn .ascii _ _ _ _ _ _ _ _ first
    (@Twins.start .ascii fussyApp fussy (fun _ _ _ _ => True) .empty) (submits_fair 1 burstBody down _ _) trivial,
    submits_fair 2 capitalBody down _ _, hout, hfine, fun h => ?_⟩
  have hreply := congrArg Except.toBool (h.reply fun hstats => by cases hstats)
  rw [hbool, hbool] at hreply
  exact absurd (hout.symm.trans (hreply.trans hfine)) (by decide)

end

end CivicPulse.Outages
