/-
  CivicPulse.Frontend.Dashboard — the operations dashboard (`src/pages/DashboardPage.tsx`)
  and its list requests (`src/api/client.ts`).

  Every change of the filters or of the page, and every refresh, starts a request; whichever
  response arrives writes what is shown. The buttons wait for a response, the filters do not.
  A request is known by its number; what has arrived is kept, newest first. Changing a
  complaint's status is left out.
  - `shown_in_order`: when no response is overtaken, what is shown when all have arrived
    answers the current filters and page.
  - `patient_inOrder`: none is, if the filters are changed only when nothing is in flight.
  - `overtaken_shown`: one that is overtaken is shown under another's filters; and from
    wherever one is overtaken this can come about (`overtaken_breaks`).
-/

import Mathlib.Algebra.Order.BigOperators.Group.List
import Mathlib.Algebra.Order.Ring.Canonical
import Mathlib.Algebra.Order.Group.Nat
import Mathlib.Data.List.Perm.Basic
import Mathlib.Logic.Relation
import CivicPulse.Text.Str

namespace CivicPulse.Dashboard

open Text

/-! ## The request -/

structure Filters where
  category : Str
  priority : Str
  status : Str
  deriving DecidableEq

inductive FilterKey where
  | category
  | priority
  | status
  deriving DecidableEq, Repr

def Filters.set (f : Filters) : FilterKey → Str → Filters
  | .category, v => { f with category := v }
  | .priority, v => { f with priority := v }
  | .status, v => { f with status := v }

structure ListQuery where
  page : Nat
  pageSize : Nat
  category : Option Str
  priority : Option Str
  status : Option Str
  deriving DecidableEq

def PAGE_SIZE : Nat := 10

/-- An empty filter is not sent. -/
def chosen (v : Str) : Option Str := if v.isEmpty then none else some v

/-- The query that `load` builds. -/
def query (f : Filters) (page : Nat) : ListQuery :=
  ⟨page, PAGE_SIZE, chosen f.category, chosen f.priority, chosen f.status⟩

/-! ## The page -/

/-- A page of the list; the dashboard reads no more of it than this. -/
structure ComplaintPage (Item : Type) where
  items : List Item
  total : Nat

/-- What `fetch` gives: nothing at all, a 2xx response whose body is a page (or no JSON), or
    another status, with the server's `detail` if that is a text. -/
inductive Fetched (Item : Type) where
  | failed
  | success (body : Option (ComplaintPage Item))
  | refused (status : Nat) (detail : Option Str)

structure ApiError where
  status : Nat
  message : Str

structure DashboardPage (Item : Type) where
  filters : Filters
  page : Nat
  data : Option (ComplaintPage Item)
  loading : Bool
  error : Option Str

inductive Control where
  | filter (key : FilterKey) (value : Str)
  | refresh
  | previous
  | next

variable {Item : Type}

def listComplaints : Fetched Item → Except ApiError (Option (ComplaintPage Item))
  | .failed => .error ⟨0, "Cannot reach the CivicPulse server. Check your connection and try again.".toList⟩
  | .success body => .ok body
  | .refused status detail =>
    .error ⟨status, detail.getD ("Request failed (".toList ++ natText status ++ ")".toList)⟩

namespace DashboardPage

def fresh : DashboardPage Item := ⟨⟨[], [], []⟩, 1, none, true, none⟩

def totalPages (d : DashboardPage Item) : Nat :=
  match d.data with
  | some p => max 1 ((p.total + PAGE_SIZE - 1) / PAGE_SIZE)
  | none => 1

def disabled (d : DashboardPage Item) : Control → Bool
  | .filter _ _ => false
  | .refresh => d.loading
  | .previous => d.page ≤ 1 || d.loading
  | .next => d.totalPages ≤ d.page || d.loading

/-- What a control changes: `setFilter` and the pager. -/
def use (d : DashboardPage Item) : Control → DashboardPage Item
  | .filter key value => { d with filters := d.filters.set key value, page := 1 }
  | .refresh => d
  | .previous => { d with page := d.page - 1 }
  | .next => { d with page := d.page + 1 }

/-- `load` before the response. -/
def begin (d : DashboardPage Item) : DashboardPage Item := { d with loading := true, error := none }

/-- `load` after it. -/
def settle (d : DashboardPage Item) : Except ApiError (Option (ComplaintPage Item)) → DashboardPage Item
  | .ok p => { d with data := p, loading := false }
  | .error e => { d with error := some e.message, loading := false }

/-- What the current filters and page ask for. -/
def current (d : DashboardPage Item) : ListQuery := query d.filters d.page

@[simp] theorem current_settle (d : DashboardPage Item) (r : Except ApiError (Option (ComplaintPage Item))) :
    (d.settle r).current = d.current := by
  cases r <;> rfl

end DashboardPage

/-! ## Runs -/

structure Request where
  id : Nat
  query : ListQuery
  deriving DecidableEq

/-- The page, and the requests that it has made so far. -/
structure Session (Item : Type) where
  ui : DashboardPage Item
  made : Nat
  inFlight : List Request
  arrived : List (Request × Fetched Item)

inductive Event (Item : Type) where
  | use (c : Control)
  | arrive (r : Request) (f : Fetched Item)

namespace Session

def load (s : Session Item) : Session Item :=
  { s with ui := s.ui.begin, made := s.made + 1, inFlight := s.inFlight ++ [⟨s.made, s.ui.current⟩] }

def arrive (s : Session Item) (r : Request) (f : Fetched Item) : Session Item :=
  { s with ui := s.ui.settle (listComplaints f), inFlight := s.inFlight.erase r, arrived := (r, f) :: s.arrived }

/-- The page is mounted, and loads. -/
def mount : Session Item := load ⟨.fresh, 0, [], []⟩

/-- Refresh calls `load`; the filters and the pager change what `load` depends on, so that
    the effect calls it. -/
def step (s : Session Item) : Event Item → Option (Session Item)
  | .use c => if s.ui.disabled c then none else some (load { s with ui := s.ui.use c })
  | .arrive r f => if r ∈ s.inFlight then some (s.arrive r f) else none

/-- The newest request. -/
def Newest (s : Session Item) (r : Request) : Prop := r.id + 1 = s.made

end Session

open Session

/-- The sessions reached by steps that meet the condition. -/
inductive Reach (C : Session Item → Event Item → Prop) : Session Item → Prop
  | mount : Reach C mount
  | step {s s' : Session Item} {e : Event Item} : Reach C s → C s e → s.step e = some s' → Reach C s'

/-- Controls and arrivals of any kind. -/
abbrev Any : Session Item → Event Item → Prop := fun _ _ => True

theorem arrive_step {s : Session Item} {r : Request} (h : r ∈ s.inFlight) (f : Fetched Item) :
    s.step (.arrive r f) = some (s.arrive r f) :=
  if_pos h

theorem step_cases {s s' : Session Item} {e : Event Item} (h : s.step e = some s') :
    (∃ c, e = .use c ∧ s.ui.disabled c = false ∧ s' = load { s with ui := s.ui.use c }) ∨
      ∃ r f, e = .arrive r f ∧ r ∈ s.inFlight ∧ s' = s.arrive r f := by
  cases e with
  | use c =>
    simp only [step] at h
    split at h
    · cases h
    · rename_i hd
      exact .inl ⟨c, rfl, Bool.eq_false_iff.mpr hd, (Option.some.inj h).symm⟩
  | arrive r f =>
    simp only [step] at h
    split at h
    · exact .inr ⟨r, f, rfl, ‹_›, (Option.some.inj h).symm⟩
    · cases h

/-! ## What is shown -/

/-- A request with this query was answered so. -/
def Answered (s : Session Item) (q : ListQuery) (data : Option (ComplaintPage Item)) : Prop :=
  ∃ r, (r, .success data) ∈ s.arrived ∧ r.query = q

/-- The last response to arrive was a success. -/
def LastOk (s : Session Item) : Prop := ∃ r data, s.arrived.head? = some (r, .success data)

/-- Once nothing is in flight, what is shown answers the current filters and page. -/
def Shows (s : Session Item) : Prop := s.inFlight = [] → LastOk s → Answered s s.ui.current s.ui.data

/-- When the newest request's response arrives, whatever is still in flight was asked for the
    same filters and page. -/
def InOrder (s : Session Item) : Event Item → Prop
  | .use _ => True
  | .arrive r _ => s.Newest r → ∀ r' ∈ s.inFlight, r'.query = r.query

/-- Requests are numbered, and the newest is for the current filters and page. -/
structure Numbered (s : Session Item) : Prop where
  made : ∀ r ∈ s.inFlight, r.id < s.made
  newest : ∀ r ∈ s.inFlight, s.Newest r → r.query = s.ui.current

/-- The newest request has not been overtaken yet. -/
structure Ordered (s : Session Item) : Prop where
  pending : (∃ r ∈ s.inFlight, s.Newest r) ∨ ∀ r ∈ s.inFlight, r.query = s.ui.current
  shows : Shows s

variable {s s' : Session Item} {e : Event Item} {r : Request} {f : Fetched Item}

theorem mem_load (h : r ∈ s.load.inFlight) : r ∈ s.inFlight ∨ r = ⟨s.made, s.ui.current⟩ :=
  (List.mem_append.mp h).imp_right List.mem_singleton.mp

theorem load_mem : (⟨s.made, s.ui.current⟩ : Request) ∈ s.load.inFlight :=
  List.mem_append_right _ (List.mem_singleton.mpr rfl)

theorem mem_arrive {r' : Request} (h : r' ∈ (s.arrive r f).inFlight) : r' ∈ s.inFlight := List.mem_of_mem_erase h

theorem current_arrive : (s.arrive r f).ui.current = s.ui.current := DashboardPage.current_settle _ _

theorem load_numbered (h : ∀ r ∈ s.inFlight, r.id < s.made) : Numbered s.load := by
  refine ⟨fun r hr => ?_, fun r hr hn => ?_⟩
  · rcases mem_load hr with hr | rfl
    · exact Nat.lt_succ_of_lt (h r hr)
    · exact Nat.lt_succ_self _
  · rcases mem_load hr with hr | rfl
    · exact absurd (Nat.succ.inj hn) (Nat.ne_of_lt (h r hr))
    · rfl

theorem arrive_numbered (h : Numbered s) : Numbered (s.arrive r f) :=
  ⟨fun r' hr' => h.made r' (mem_arrive hr'), fun r' hr' hn => (h.newest r' (mem_arrive hr') hn).trans current_arrive.symm⟩

theorem reach_numbered {C : Session Item → Event Item → Prop} (h : Reach C s) : Numbered s := by
  induction h with
  | mount => exact load_numbered fun r hr => by cases hr
  | step _ _ hs ih =>
    rcases step_cases hs with ⟨c, -, -, rfl⟩ | ⟨r, f, -, -, rfl⟩
    · exact load_numbered ih.made
    · exact arrive_numbered ih

theorem load_ordered : Ordered s.load := by
  refine ⟨.inl ⟨_, load_mem, rfl⟩, fun he => ?_⟩
  have hm := load_mem (s := s)
  rw [he] at hm
  cases hm

theorem arrive_ordered (hn : Numbered s) (h : Ordered s) (hr : r ∈ s.inFlight) (ho : InOrder s (.arrive r f)) :
    Ordered (s.arrive r f) := by
  -- either the newest is still in flight, or everything in flight is for the current query
  have hpending : (∃ r' ∈ (s.arrive r f).inFlight, s.Newest r') ∨ ∀ r' ∈ s.inFlight, r'.query = s.ui.current := by
    rcases h.pending with ⟨n, hmem, hnew⟩ | hall
    · by_cases e : n = r
      · subst e
        exact .inr fun r' hr' => (ho hnew r' hr').trans (hn.newest n hmem hnew)
      · exact .inl ⟨n, (List.mem_erase_of_ne e).mpr hmem, hnew⟩
    · exact .inr hall
  refine ⟨?_, fun he hlast => ?_⟩
  · rw [current_arrive]
    exact hpending.imp_right fun hall r' hr' => hall r' (mem_arrive hr')
  · rcases hpending with ⟨n, hmem, -⟩ | hall
    · rw [he] at hmem
      cases hmem
    · obtain ⟨r', data, hhead⟩ := hlast
      cases hhead
      exact ⟨r, List.mem_cons_self, (hall r hr).trans current_arrive.symm⟩

theorem reach_ordered (h : Reach InOrder s) : Ordered s := by
  induction h with
  | mount => exact load_ordered
  | step h hc hs ih =>
    rcases step_cases hs with ⟨c, rfl, -, rfl⟩ | ⟨r, f, rfl, hr, rfl⟩
    · exact load_ordered
    · exact arrive_ordered (reach_numbered h) ih hr hc

/-- In every session in which no response is overtaken, what is shown once nothing is in
    flight answers the current filters and page, if the last response was a success. -/
theorem shown_in_order (h : Reach InOrder s) : Shows s := (reach_ordered h).shows

/-- Everything is asked for, then the filter is set to water before it has arrived. -/
def waterChosen : Session Str := load { mount with ui := mount.ui.use (.filter .category "water".toList) }

def everything : Fetched Str := .success (some ⟨["burst pipe".toList, "dead lamp".toList], 2⟩)

def onlyWater : Fetched Str := .success (some ⟨["burst pipe".toList], 1⟩)

def unfiltered : Request := ⟨0, query ⟨[], [], []⟩ 1⟩

def filtered : Request := ⟨1, query ⟨"water".toList, [], []⟩ 1⟩

theorem waterChosen_reach (C : Session Str → Event Str → Prop) (h : ∀ s c, C s (.use c)) : Reach C waterChosen :=
  .step (e := .use (.filter .category "water".toList)) .mount (h _ _) rfl

theorem waterChosen_inFlight : waterChosen.inFlight = [unfiltered, filtered] := rfl

/-- The responses in order. -/
theorem shown_in_order_water : Shows ((waterChosen.arrive unfiltered everything).arrive filtered onlyWater) := by
  have h₀ : Reach InOrder waterChosen := waterChosen_reach _ fun _ _ => trivial
  have hold : InOrder waterChosen (.arrive unfiltered everything) := fun hn => absurd (show 0 + 1 = 2 from hn) (by decide)
  have h₁ : Reach InOrder (waterChosen.arrive unfiltered everything) :=
    h₀.step hold (arrive_step (waterChosen_inFlight ▸ List.mem_cons_self) _)
  have hone : (waterChosen.arrive unfiltered everything).inFlight = [filtered] := rfl
  have hnew : InOrder (waterChosen.arrive unfiltered everything) (.arrive filtered onlyWater) := by
    intro _ r hr
    rw [hone, List.mem_singleton] at hr
    rw [hr]
  exact shown_in_order (h₁.step hnew (arrive_step (hone ▸ List.mem_cons_self) _))

/-- The responses the other way round. -/
def overtaken : Session Str := (waterChosen.arrive filtered onlyWater).arrive unfiltered everything

/-- Everything is shown under the filter for water. -/
theorem overtaken_shown : Reach Any overtaken ∧ overtaken.ui.filters.category = "water".toList ∧
    overtaken.ui.data.map (·.items) = some ["burst pipe".toList, "dead lamp".toList] ∧
    overtaken.inFlight = [] ∧ LastOk overtaken ∧ ¬ Shows overtaken := by
  have h₀ : Reach Any waterChosen := waterChosen_reach _ fun _ _ => trivial
  have h₁ : Reach Any (waterChosen.arrive filtered onlyWater) :=
    h₀.step trivial (arrive_step (waterChosen_inFlight ▸ List.mem_cons_of_mem _ List.mem_cons_self) _)
  have hone : (waterChosen.arrive filtered onlyWater).inFlight = [unfiltered] := rfl
  refine ⟨h₁.step trivial (arrive_step (hone ▸ List.mem_cons_self) _), rfl, rfl, rfl, ⟨unfiltered, _, rfl⟩, fun h => ?_⟩
  obtain ⟨r, hr, hq⟩ := h rfl ⟨unfiltered, _, rfl⟩
  rcases List.mem_pair.mp hr with hr | hr
  · cases hr
    exact absurd hq (by decide)
  · cases hr

/-! ## A patient user -/

/-- The filters are left alone while a request is in flight. -/
def Patient (s : Session Item) : Event Item → Prop
  | .use (.filter _ _) => s.inFlight = []
  | _ => True

/-- The buttons wait for the one request in flight. -/
def Single (s : Session Item) : Prop := s.inFlight = [] ∨ s.ui.loading = true ∧ ∃ r, s.inFlight = [r]

theorem load_single (h : s.inFlight = []) : Single s.load := by
  refine .inr ⟨rfl, ⟨s.made, s.ui.current⟩, ?_⟩
  show s.inFlight ++ _ = _
  rw [h]
  rfl

/-- What is enabled while a request is in flight is the filters. -/
theorem idle_of_enabled {c : Control} (h : Single s) (hd : s.ui.disabled c = false) (hp : Patient s (.use c)) :
    s.inFlight = [] := by
  rcases h with h | ⟨hl, -⟩
  · exact h
  · cases c with
    | filter key value => exact hp
    | refresh => simp [DashboardPage.disabled, hl] at hd
    | previous => simp [DashboardPage.disabled, hl] at hd
    | next => simp [DashboardPage.disabled, hl] at hd

theorem single_only (h : Single s) (hr : r ∈ s.inFlight) : s.inFlight = [r] := by
  rcases h with h | ⟨-, r', h⟩
  · rw [h] at hr
    cases hr
  · rw [h] at hr ⊢
    rw [List.mem_singleton.mp hr]

theorem reach_single (h : Reach Patient s) : Single s := by
  induction h with
  | mount => exact load_single rfl
  | step _ hc hs ih =>
    rcases step_cases hs with ⟨c, rfl, hd, rfl⟩ | ⟨r, f, rfl, hr, rfl⟩
    · have hidle := idle_of_enabled ih hd hc
      exact load_single hidle
    · left
      show List.erase _ r = []
      rw [single_only ih hr, List.erase_cons_head]

theorem patient_inOrder (h : Reach Patient s) : Reach InOrder s := by
  induction h with
  | mount => exact .mount
  | step h _ hs ih =>
    refine ih.step ?_ hs
    rcases step_cases hs with ⟨c, rfl, -, -⟩ | ⟨r, f, rfl, hr, -⟩
    · trivial
    · intro _ r' hr'
      rw [single_only (reach_single h) hr, List.mem_singleton] at hr'
      rw [hr']

/-! ## Overtaken -/

/-- Responses arrive; the user does nothing. -/
def Settles : Session Item → Session Item → Prop := Relation.ReflTransGen fun s s' => ∃ r f, s.step (.arrive r f) = some s'

/-- Every other response can come first, with no page in it. -/
theorem settles_but_one (h : r ∈ s.inFlight) : ∃ s', Settles s s' ∧ s'.inFlight = [r] ∧ s'.ui.current = s.ui.current ∧
    ∀ x ∈ s'.arrived, x ∈ s.arrived ∨ x.2 = .success none := by
  generalize hl : s.inFlight.erase r = l
  induction l generalizing s with
  | nil =>
    refine ⟨s, .refl, ?_, rfl, fun x hx => .inl hx⟩
    have := List.perm_cons_erase h
    rw [hl] at this
    exact List.perm_singleton.mp this
  | cons x l ih =>
    have hx : x ∈ s.inFlight.erase r := hl ▸ List.mem_cons_self
    have hr : r ∈ (s.arrive x (.success none)).inFlight := by
      by_cases e : r = x
      · subst e
        exact hx
      · exact (List.mem_erase_of_ne e).mpr h
    have hrest : (s.arrive x (.success none)).inFlight.erase r = l := by
      show (s.inFlight.erase x).erase r = l
      rw [List.erase_comm, hl, List.erase_cons_head]
    obtain ⟨s', hs', hone, hcur, harr⟩ := ih hr hrest
    refine ⟨s', .head ⟨x, _, arrive_step (mem_arrive (f := .success none) (r := r) ?_) _⟩ hs', hone,
      hcur.trans current_arrive, fun y hy => ?_⟩
    · exact hx
    · rcases harr y hy with hy | hy
      · rcases List.mem_cons.mp hy with rfl | hy
        · exact .inr rfl
        · exact .inl hy
      · exact .inr hy

/-- How many complaints a response speaks of. -/
def Fetched.total : Fetched Item → Nat
  | .success (some p) => p.total
  | _ => 0

/-- A page that no response had. -/
theorem unseen (l : List (Request × Fetched Item)) : ∃ p : ComplaintPage Item, ∀ x ∈ l, x.2 ≠ .success (some p) := by
  refine ⟨⟨[], (l.map fun x => x.2.total).sum + 1⟩, fun x hx e => ?_⟩
  have hle : x.2.total ≤ (l.map fun x => x.2.total).sum := List.le_sum_of_mem (List.mem_map_of_mem hx)
  rw [e] at hle
  exact Nat.not_succ_le_self _ hle

/-- Wherever a response is overtaken, what is shown can be left under another's filters. -/
theorem overtaken_breaks {C : Session Item → Event Item → Prop} (h : Reach C s) (hr : r ∈ s.inFlight)
    (ho : ¬ InOrder s (.arrive r f)) : ∃ s', Settles (s.arrive r f) s' ∧ ¬ Shows s' := by
  simp only [InOrder, not_forall] at ho
  obtain ⟨hnew, r', hr', hq⟩ := ho
  have hcur : r.query = s.ui.current := (reach_numbered h).newest r hr hnew
  have hlate : r' ∈ (s.arrive r f).inFlight := (List.mem_erase_of_ne fun e => hq (congrArg Request.query e)).mpr hr'
  obtain ⟨s', hs', hone, hcur', harr⟩ := settles_but_one hlate
  obtain ⟨p, hp⟩ := unseen (s.arrive r f).arrived
  have hin : r' ∈ s'.inFlight := hone ▸ List.mem_singleton.mpr rfl
  refine ⟨s'.arrive r' (.success (some p)), hs'.tail ⟨r', _, arrive_step hin _⟩, fun hshows => ?_⟩
  have hnone : (s'.arrive r' (.success (some p))).inFlight = [] := by
    show s'.inFlight.erase r' = []
    rw [hone, List.erase_cons_head]
  obtain ⟨x, hx, hxq⟩ := hshows hnone ⟨r', _, rfl⟩
  rw [current_arrive, hcur', current_arrive, ← hcur] at hxq
  rcases List.mem_cons.mp hx with hx | hx
  · cases hx
    exact hq hxq
  · rcases harr _ hx with hx | hx
    · exact hp _ hx rfl
    · cases hx

end CivicPulse.Dashboard
