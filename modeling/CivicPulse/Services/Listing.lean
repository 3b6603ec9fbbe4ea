/-
  CivicPulse.Services.Listing — pages of complaints (`ComplaintRepository.list`,
  `list_complaints` of `app/routes/complaints.py`).

  A page is two statements, the number of complaints under the filters and the rows of the
  page; `OFFSET`, `LIMIT` and `count(*)` are 64-bit integers, and out of their range the
  database answers with an error.
  - `list_answer`: what `list` answers on a connection that does not fail.
  - `pages_partition`: the pages one after the other are the complaints under the filters,
    newest first.
  - `listing_answered_iff`: the route answers exactly when the offset is a 64-bit integer.
  - `validate_error`: a query is refused exactly when a parameter is out of its range, and
    every error names such a parameter.
-/

import CivicPulse.Services.Alone

namespace CivicPulse

open Text Lang

/-! ## The route -/

/-- `ComplaintOut`: the row, and where its status may go. -/
structure ComplaintOut extends Complaint where
  allowedTransitions : List Status
  deriving DecidableEq

def toOut (c : Complaint) : ComplaintOut := ⟨c, allowedTransitions c.status⟩

structure ComplaintPage where
  items : List ComplaintOut
  total : Int
  page : Int
  pageSize : Int
  deriving DecidableEq

/-- A query that passes the checks of `list_complaints`. -/
structure ListQuery where
  filters : ComplaintFilters
  page : Int
  pageSize : Int
  page_ge : 1 ≤ page
  pageSize_ge : 1 ≤ pageSize
  pageSize_le : pageSize ≤ 100

/-- A check of a query parameter. -/
def check (name msg : Str) (ok : Bool) : List FieldError := if ok then [] else [⟨["query".toList, name], msg⟩]

def ge (name : Str) (bound n : Int) : List FieldError :=
  check name ("Input should be greater than or equal to ".toList ++ intText bound) (bound ≤ n)

def le (name : Str) (bound n : Int) : List FieldError :=
  check name ("Input should be less than or equal to ".toList ++ intText bound) (n ≤ bound)

def pageErrors (page : Int) : List FieldError := ge "page".toList 1 page

def pageSizeErrors (pageSize : Int) : List FieldError := ge "page_size".toList 1 pageSize ++ le "page_size".toList 100 pageSize

/-- The query of a request, or what is wrong with it; `page` is 1 and `page_size` 20 by
    default. -/
def ListQuery.validate (filters : ComplaintFilters) (page pageSize : Option Int) : Except (List FieldError) ListQuery :=
  let p := page.getD 1
  let s := pageSize.getD 20
  if h : 1 ≤ p ∧ 1 ≤ s ∧ s ≤ 100 then .ok ⟨filters, p, s, h.1, h.2.1, h.2.2⟩ else .error (pageErrors p ++ pageSizeErrors s)

def listComplaints (q : ListQuery) : Code ComplaintPage :=
  repository ((fun r => ⟨r.1.map toOut, r.2, q.page, q.pageSize⟩) <$> ComplaintService.list q.filters q.page q.pageSize)

theorem check_nil {name msg : Str} {ok : Bool} : check name msg ok = [] ↔ ok = true := by
  cases ok with
  | true => exact iff_of_true rfl rfl
  | false => exact iff_of_false (List.cons_ne_nil _ _) nofun

theorem mem_check {name msg : Str} {ok : Bool} {e : FieldError} (h : e ∈ check name msg ok) :
    e.loc = ["query".toList, name] ∧ ok = false := by
  cases ok with
  | true => cases h
  | false => exact ⟨by rw [List.mem_singleton.mp h], rfl⟩

/-- A query that is refused: there is an error, and each names a parameter out of its range. -/
theorem validate_error {f : ComplaintFilters} {page pageSize : Option Int} {errors : List FieldError}
    (h : ListQuery.validate f page pageSize = .error errors) :
    errors ≠ [] ∧ ∀ e ∈ errors,
      e.loc = ["query".toList, "page".toList] ∧ page.getD 1 < 1 ∨
      e.loc = ["query".toList, "page_size".toList] ∧ (pageSize.getD 20 < 1 ∨ 100 < pageSize.getD 20) := by
  rw [ListQuery.validate] at h
  split at h
  · cases h
  · rename_i hrange
    cases h
    refine ⟨fun hnil => hrange ?_, fun e he => ?_⟩
    · simp only [pageErrors, pageSizeErrors, ge, le, List.append_eq_nil_iff, check_nil, decide_eq_true_eq] at hnil
      exact hnil
    · rcases List.mem_append.mp he with he | he
      · obtain ⟨hloc, hpage⟩ := mem_check he
        exact .inl ⟨hloc, by simpa using hpage⟩
      · rcases List.mem_append.mp he with he | he
        · obtain ⟨hloc, hsize⟩ := mem_check he
          exact .inr ⟨hloc, .inl (by simpa using hsize)⟩
        · obtain ⟨hloc, hsize⟩ := mem_check he
          exact .inr ⟨hloc, .inr (by simpa using hsize)⟩

/-! ## What a page holds -/

/-- The complaints under the filters, in the order of `list`. -/
def listing (t : Table) (f : ComplaintFilters) : List Complaint := sortBy Complaint.order (t.rows.filter f.keeps)

/-- The answer of `list`. -/
def listed (t : Table) (f : ComplaintFilters) (page pageSize : Int) : List Complaint × Int :=
  ((Query.page f ((page - 1) * pageSize) pageSize).eval t, ((Query.count f).eval t : Nat))

/-- The statements of `list` are in range. -/
def InRange (t : Table) (f : ComplaintFilters) (page pageSize : Int) : Prop :=
  (Query.count f).fits t = true ∧ (Query.page f ((page - 1) * pageSize) pageSize).fits t = true

instance (t : Table) (f : ComplaintFilters) (page pageSize : Int) : Decidable (InRange t f page pageSize) :=
  inferInstanceAs (Decidable (_ ∧ _))

theorem order_lt {a b : Complaint} :
    a.order < b.order ↔ b.createdAt < a.createdAt ∨ a.createdAt = b.createdAt ∧ a.id < b.id := by
  rw [Complaint.order, Complaint.order, Prod.Lex.toLex_lt_toLex]
  rfl

theorem mem_listing {t : Table} {f : ComplaintFilters} {c : Complaint} : c ∈ listing t f ↔ c ∈ t.rows ∧ f.keeps c = true :=
  mem_sortBy.trans List.mem_filter

theorem listing_sorted (t : Table) (f : ComplaintFilters) : (listing t f).Pairwise fun a b => a.order < b.order :=
  sortBy_sorted (t.order_nodup f)

theorem listing_nodup (t : Table) (f : ComplaintFilters) : (listing t f).Nodup :=
  (listing_sorted t f).imp fun {a b} (h : a.order < b.order) e => lt_irrefl b.order (e ▸ h)

theorem inRange_iff {t : Table} {f : ComplaintFilters} {page pageSize : Int} (hp : 1 ≤ page) (hs : 1 ≤ pageSize) :
    InRange t f page pageSize ↔
      t.rows.countP f.keeps < 2 ^ 63 ∧ (page - 1) * pageSize < 2 ^ 63 ∧ pageSize < 2 ^ 63 := by
  have hoffset : 0 ≤ (page - 1) * pageSize := mul_nonneg (by omega) (by omega)
  have hlimit : 0 ≤ pageSize := by omega
  simp only [InRange, Query.fits, Bool.and_eq_true, decide_eq_true_eq, hoffset, hlimit, true_and, and_true]

theorem offset_eq (k s : Nat) : (((k + 1 : Nat) : Int) - 1) * (s : Int) = (k * s : Nat) := by
  rw [Int.natCast_add, Int.natCast_one, Int.add_sub_cancel, Int.natCast_mul]

theorem listed_eq (t : Table) (f : ComplaintFilters) (k s : Nat) :
    listed t f (k + 1 : Nat) s = (Lang.page Complaint.order (k * s) s (t.rows.filter f.keeps), (t.rows.countP f.keeps : Int)) := by
  rw [listed, offset_eq]
  rfl

variable [Platform] {E : Env} {i : Nat} {w : World}

theorem list_answer (hE : ∀ n, E.dbFault n = none) (f : ComplaintFilters) (page pageSize : Int) (w : World) :
    ((Repository.list f page pageSize).run (machine E) i w).1 =
      if InRange (w.db.view i) f page pageSize then .ok (listed (w.db.view i) f page pageSize) else .error World.refused := by
  have hcount := World.select_answer (i := i) (hE w.ticks) (.count f)
  have hdb : ((machine E).exec i (.select (.count f)) w).2.db = w.db := (World.select_cases (.count f)).1
  rw [Repository.list, Prog.run_op]
  rw [show ((machine E).exec i (.select (.count f)) w).1 = _ from hcount]
  by_cases h : (Query.count f).fits (w.db.view i) = true
  · have hrows := World.select_answer (E := E) (i := i) (w := ((machine E).exec i (.select (.count f)) w).2) (hE _)
      (.page f ((page - 1) * pageSize) pageSize)
    rw [hdb] at hrows
    rw [if_pos h]
    show ((Prog.op (Op.select (.page f ((page - 1) * pageSize) pageSize)) _).run (machine E) i _).1 = _
    rw [Prog.run_op]
    rw [show ((machine E).exec i (.select (.page f ((page - 1) * pageSize) pageSize)) _).1 = _ from hrows]
    by_cases h' : (Query.page f ((page - 1) * pageSize) pageSize).fits (w.db.view i) = true
    · rw [if_pos h', if_pos ⟨h, h'⟩]
      rfl
    · rw [if_neg h', if_neg fun hr => h' hr.2]
      rfl
  · rw [if_neg h, if_neg fun hr => h hr.1]
    rfl

/-! ## All pages -/

/-- How many pages of `s` complaints there are. -/
def pageCount (t : Table) (f : ComplaintFilters) (s : Nat) : Nat := (t.rows.countP f.keeps + s - 1) / s

/-- Pages 1, 2, … to the last, one after the other. -/
def allPages (t : Table) (f : ComplaintFilters) (s : Nat) (list : Nat → List Complaint × Int) : List Complaint :=
  (List.range (pageCount t f s)).flatMap fun k => (list (k + 1)).1

/-- The pages hold the complaints under the filters, each once, newest first. -/
structure Partitioned (t : Table) (f : ComplaintFilters) (s : Nat) (list : Nat → List Complaint × Int) : Prop where
  once : ∀ c, (allPages t f s list).count c = if c ∈ t.rows ∧ f.keeps c = true then 1 else 0
  ordered : (allPages t f s list).Pairwise fun a b => b.createdAt < a.createdAt ∨ a.createdAt = b.createdAt ∧ a.id < b.id
  full : ∀ p, 1 ≤ p → p < pageCount t f s → (list p).1.length = s
  later : ∀ p, pageCount t f s < p → (list p).1 = []
  total : ∀ p, 1 ≤ p → (list p).2 = t.rows.countP f.keeps

omit [Platform] in
theorem pageCount_le {t : Table} {f : ComplaintFilters} {s k : Nat} (hs : 1 ≤ s) :
    pageCount t f s ≤ k ↔ t.rows.countP f.keeps ≤ k * s := by
  rw [pageCount, Nat.div_le_iff_le_mul (by omega), Nat.mul_comm]
  omega

omit [Platform] in
theorem partitioned (t : Table) (f : ComplaintFilters) {s : Nat} (hs : 1 ≤ s) : Partitioned t f s fun p => listed t f p s := by
  have hlen : (t.rows.filter f.keeps).length = t.rows.countP f.keeps := List.countP_eq_length_filter.symm
  have hall : allPages t f s (fun p => listed t f p s) = listing t f := by
    have hpages : t.rows.countP f.keeps ≤ pageCount t f s * s := (pageCount_le hs).mp le_rfl
    rw [← hlen] at hpages
    rw [listing, ← pages_flatten hpages, allPages]
    refine List.flatMap_congr fun k _ => ?_
    rw [listed_eq]
  have page : ∀ p : Nat, 1 ≤ p → listed t f p s =
      (Lang.page Complaint.order ((p - 1) * s) s (t.rows.filter f.keeps), (t.rows.countP f.keeps : Int)) := by
    intro p hp
    obtain ⟨k, rfl⟩ : ∃ k, p = k + 1 := ⟨p - 1, by omega⟩
    exact listed_eq t f k s
  refine ⟨fun c => ?_, ?_, fun p hp hlt => ?_, fun p hlt => ?_, fun p hp => ?_⟩
  · rw [hall]
    split
    · rename_i h
      exact List.count_eq_one_of_mem (listing_nodup t f) (mem_listing.mpr h)
    · rename_i h
      exact List.count_eq_zero_of_not_mem fun hm => h (mem_listing.mp hm)
  · rw [hall]
    exact (listing_sorted t f).imp order_lt.mp
  · -- a page before the last ends before the last complaint
    have hnot : ¬ t.rows.countP f.keeps ≤ p * s := fun h => absurd ((pageCount_le hs).mpr h) (by omega)
    have hp' : (p - 1) * s + s = p * s := by rw [← Nat.succ_mul, Nat.succ_eq_add_one, Nat.sub_add_cancel hp]
    rw [page p hp, length_page, hlen]
    omega
  · have hle : t.rows.countP f.keeps ≤ (p - 1) * s := (pageCount_le hs).mp (by omega)
    rw [page p (by omega), page_nil (hlen.trans_le hle)]
  · rw [page p hp]

omit [Platform] in
theorem listed_perm {t t' : Table} (h : t'.rows.Perm t.rows) (f : ComplaintFilters) (p s : Int) : listed t' f p s = listed t f p s := by
  have hsort := sortBy_perm (t'.order_nodup f) (h.filter f.keeps)
  have hcount : t'.rows.countP f.keeps = t.rows.countP f.keeps := h.countP_eq _
  simp only [listed, Query.eval, Lang.page, hsort, hcount]

omit [Platform] in
/-- No page up to the last is out of range. -/
theorem inRange_pages {t : Table} {f : ComplaintFilters} {s p : Nat} (hs : 1 ≤ s) (hs' : s < 2 ^ 63)
    (ht : t.rows.countP f.keeps < 2 ^ 63) (hp : 1 ≤ p) (hp' : p ≤ pageCount t f s) : InRange t f p s := by
  obtain ⟨k, rfl⟩ : ∃ k, p = k + 1 := ⟨p - 1, by omega⟩
  have hlt : ¬ t.rows.countP f.keeps ≤ k * s := fun h => absurd ((pageCount_le hs).mpr h) (by omega)
  rw [inRange_iff (by omega) (by omega), offset_eq]
  omega

/-- Every complaint under the filters is on exactly one page, in the order of `created_at` and
    `id`, wherever its row is; and `list` returns the page. -/
theorem pages_partition (t : Table) (f : ComplaintFilters) {s : Nat} (hs : 1 ≤ s) :
    Partitioned t f s (fun p => listed t f p s) ∧
      (∀ t' : Table, t'.rows.Perm t.rows → ∀ p : Nat, listed t' f p s = listed t f p s) ∧
      (∀ E : Env, (∀ n, E.dbFault n = none) → ∀ (i : Nat) (w : World), w.db.view i = t → ∀ p : Nat, InRange t f p s →
        ((Repository.list f p s).run (machine E) i w).1 = .ok (listed t f p s)) ∧
      (s < 2 ^ 63 → t.rows.countP f.keeps < 2 ^ 63 → ∀ p : Nat, 1 ≤ p → p ≤ pageCount t f s → InRange t f p s) := by
  refine ⟨partitioned t f hs, fun t' h p => listed_perm h f p s, fun E hE i w hw p hp => ?_, fun hs' ht p hp hp' => ?_⟩
  · rw [list_answer hE, hw, if_pos hp]
  · exact inRange_pages hs hs' ht hp hp'

/-! ## The route's answers -/

/-- The complaints at the page's positions. -/
def ListQuery.answer (q : ListQuery) (t : Table) : ComplaintPage where
  items := (((listing t q.filters).drop ((q.page - 1) * q.pageSize).toNat).take q.pageSize.toNat).map toOut
  total := t.rows.countP q.filters.keeps
  page := q.page
  pageSize := q.pageSize

omit [Platform] in
/-- Past the end there is nothing, and the total is still there. -/
theorem answer_past {q : ListQuery} {t : Table} (h : (t.rows.countP q.filters.keeps : Int) ≤ (q.page - 1) * q.pageSize) :
    (q.answer t).items = [] := by
  have hlen : (listing t q.filters).length = t.rows.countP q.filters.keeps := by
    rw [listing, sortBy, List.length_insertionSort, List.countP_eq_length_filter]
  have hpast : (listing t q.filters).length ≤ ((q.page - 1) * q.pageSize).toNat := by omega
  rw [ListQuery.answer, List.drop_eq_nil_of_le hpast, List.take_nil, List.map_nil]

omit [Platform] in
theorem answerable_iff (q : ListQuery) (t : Table) :
    InRange t q.filters q.page q.pageSize ↔
      t.rows.countP q.filters.keeps < 2 ^ 63 ∧ (q.page - 1) * q.pageSize < 2 ^ 63 := by
  have hle := q.pageSize_le
  rw [inRange_iff q.page_ge q.pageSize_ge]
  exact ⟨fun h => ⟨h.1, h.2.1⟩, fun h => ⟨h.1, h.2, by omega⟩⟩

/-- The page where the statements are in range, and else the database's refusal. -/
theorem listComplaints_answer (hE : ∀ n, E.dbFault n = none) (hidle : w.db.pending i = []) (q : ListQuery) :
    ((listComplaints q).run (machine E) i w).1 =
      if InRange w.db.table q.filters q.page q.pageSize then .ok (q.answer w.db.table) else .error World.refused := by
  have hview : w.db.view i = w.db.table := by rw [Db.view, hidle, Table.after_nil]
  rw [listComplaints, run_repository, Prog.run_map]
  show (((Repository.list _ _ _).run (machine E) i w).1.map _ : Except Exc ComplaintPage) = _
  rw [list_answer hE, hview]
  split <;> rfl

/-- A listing that is admitted is answered when its offset is a 64-bit integer. -/
theorem listing_answered_iff (hE : ∀ n, E.dbFault n = none) (hidle : w.db.pending i = []) (q : ListQuery) :
    ((listComplaints q).run (machine E) i w).1 = .ok (q.answer w.db.table) ↔
      w.db.table.rows.countP q.filters.keeps < 2 ^ 63 ∧ (q.page - 1) * q.pageSize < 2 ^ 63 := by
  rw [listComplaints_answer hE hidle, ← answerable_iff]
  split
  · rename_i h
    exact iff_of_true rfl h
  · rename_i h
    exact iff_of_false (fun he => by cases he) h

omit [Platform] in
section

def reportedPothole (id : Uuid) (createdAt : Int) : Complaint :=
  ⟨id, "a deep pothole".toList, "street 12".toList, none, .roads, .normal, .open_, none, "rules".toList, 1, createdAt, createdAt⟩

def anything : ComplaintFilters := ⟨none, none, none⟩

/-- Three complaints, two of them of the same instant. -/
def threePotholes : Table where
  rows := [reportedPothole 5 0, reportedPothole 9 3, reportedPothole 2 0]
  nodup := by decide

def noFaults : Env := .calm fun _ _ _ => .error .triageTimeout

/-- Pages of two: the newest and the lower id of the two others, then the higher one. -/
theorem pages_partition_three :
    (allPages threePotholes anything 2 fun p => listed threePotholes anything p 2).map (·.id) = [9, 2, 5] ∧
      Partitioned threePotholes anything 2 fun p => listed threePotholes anything p 2 :=
  ⟨by decide +kernel, (@pages_partition .ascii threePotholes anything 2 (by decide)).1⟩

def farQuery (page : Int) (h : 1 ≤ page) : ListQuery := ⟨anything, page, 10, h, by decide, by decide⟩

/-- An offset past the 64-bit integers: the database's error, where there should be an empty
    page. -/
theorem listing_not_answered :
    ((listComplaints (farQuery (2 ^ 63) (by decide))).run (@machine .ascii noFaults) 0 (.initial threePotholes)).1 ≠
      .ok ((farQuery (2 ^ 63) (by decide)).answer threePotholes) := by
  have hfails : ((listComplaints (farQuery (2 ^ 63) (by decide))).run (@machine .ascii noFaults) 0 (.initial threePotholes)).1.toBool =
      false := by decide +kernel
  intro h
  rw [h] at hfails
  cases hfails

theorem listing_answered_two :
    ((listComplaints (farQuery 2 (by decide))).run (@machine .ascii noFaults) 0 (.initial threePotholes)).1 =
      .ok ((farQuery 2 (by decide)).answer threePotholes) :=
  (@listing_answered_iff .ascii noFaults 0 _ (fun _ => rfl) rfl _).mpr (by decide +kernel)

end

end CivicPulse
