/-
  CivicPulse.Store.Table — the complaints table and the session over it
  (`app/models.py`, `alembic/versions/0001_create_complaints.py`).

  A table is its rows with the primary key as a field, so it cannot hold an id twice.
  A session's uncommitted writes are replayed on the table by its commit.
  - `sum_groupBy`: the groups of a column count every row once.
  - `mem_ids_after`, `find_after_congr`: what a session's writes do to the ids and to a row.
-/

import Mathlib.Data.List.Dedup
import Mathlib.Algebra.BigOperators.Group.List.Lemmas
import Mathlib.Algebra.Order.Field.Rat
import Mathlib.Data.Prod.Lex
import CivicPulse.Schemas

namespace CivicPulse

open Text

abbrev Uuid := Nat

structure Complaint where
  id : Uuid
  text : Str
  location : Str
  reporterContact : Option Str
  category : Category
  priority : Priority
  status : Status
  aiSummary : Option Str
  triagedBy : Str
  triageLatencyMs : Int
  createdAt : Int
  updatedAt : Int
  deriving DecidableEq, Repr

/-! ## Constraints -/

/-- PostgreSQL stores no U+0000 in a text column. -/
def hasNul (s : Str) : Bool := s.contains '\x00'

/-- The columns' types and the table's checks. -/
structure Complaint.Constraints (c : Complaint) : Prop where
  textLen : TEXT_MIN ≤ c.text.length ∧ c.text.length ≤ TEXT_MAX
  locationLen : LOCATION_MIN ≤ c.location.length ∧ c.location.length ≤ LOCATION_MAX
  contactLen : ∀ s, c.reporterContact = some s → s.length ≤ 200
  summaryLen : ∀ s, c.aiSummary = some s → s.length ≤ 140
  triagedByLen : c.triagedBy.length ≤ 32
  latencyNonneg : 0 ≤ c.triageLatencyMs
  textNul : hasNul c.text = false
  locationNul : hasNul c.location = false
  contactNul : ∀ s, c.reporterContact = some s → hasNul s = false
  summaryNul : ∀ s, c.aiSummary = some s → hasNul s = false
  triagedByNul : hasNul c.triagedBy = false

instance (c : Complaint) : Decidable c.Constraints :=
  have (p : Str → Prop) [DecidablePred p] (o : Option Str) : Decidable (∀ s, o = some s → p s) :=
    decidable_of_iff (o.all fun s => decide (p s)) (by cases o <;> simp)
  decidable_of_iff
    ((TEXT_MIN ≤ c.text.length ∧ c.text.length ≤ TEXT_MAX) ∧
      (LOCATION_MIN ≤ c.location.length ∧ c.location.length ≤ LOCATION_MAX) ∧
      (∀ s, c.reporterContact = some s → s.length ≤ 200) ∧ (∀ s, c.aiSummary = some s → s.length ≤ 140) ∧
      c.triagedBy.length ≤ 32 ∧ 0 ≤ c.triageLatencyMs ∧ hasNul c.text = false ∧ hasNul c.location = false ∧
      (∀ s, c.reporterContact = some s → hasNul s = false) ∧ (∀ s, c.aiSummary = some s → hasNul s = false) ∧
      hasNul c.triagedBy = false)
    ⟨fun ⟨a, b, c, d, e, f, g, h, i, j, k⟩ => ⟨a, b, c, d, e, f, g, h, i, j, k⟩,
      fun ⟨a, b, c, d, e, f, g, h, i, j, k⟩ => ⟨a, b, c, d, e, f, g, h, i, j, k⟩⟩

/-- An `INTEGER` column holds 32 bits. -/
def int4 (n : Int) : Bool := -2147483648 ≤ n && n ≤ 2147483647

/-! ## Tables -/

structure Table where
  rows : List Complaint
  nodup : (rows.map (·.id)).Nodup

namespace Table

def empty : Table := ⟨[], .nil⟩

def ids (t : Table) : List Uuid := t.rows.map (·.id)

def find (t : Table) (id : Uuid) : Option Complaint := t.rows.find? (·.id == id)

/-- A row is added unless its primary key is taken. -/
def insert (t : Table) (c : Complaint) : Table :=
  if h : c.id ∈ t.ids then t
  else ⟨t.rows ++ [c], by
    rw [List.map_append, List.map_singleton, ← List.concat_eq_append]
    exact t.nodup.concat h⟩

/-- `status` and `updated_at` of one row. -/
def setStatus (t : Table) (id : Uuid) (s : Status) (at_ : Int) : Table where
  rows := t.rows.map fun c => if c.id = id then { c with status := s, updatedAt := at_ } else c
  nodup := by
    have : (t.rows.map fun c => if c.id = id then { c with status := s, updatedAt := at_ } else c).map (·.id) =
        t.rows.map (·.id) := by
      rw [List.map_map]
      refine List.map_congr_left fun c _ => ?_
      simp only [Function.comp_apply]
      split <;> rfl
    rw [this]
    exact t.nodup

/-! ## Queries -/

inductive Column where
  | category
  | priority
  | status
  | triagedBy
  deriving DecidableEq, Repr

/-- The value a `GROUP BY` reports for a row. -/
def Column.key : Column → Complaint → Str
  | .category, c => value c.category
  | .priority, c => value c.priority
  | .status, c => value c.status
  | .triagedBy, c => c.triagedBy

/-- `SELECT col, count(*) … GROUP BY col`. -/
def groupBy (t : Table) (col : Column) : List (Str × Nat) :=
  (t.rows.map col.key).dedup.map fun k => (k, (t.rows.map col.key).count k)

/-- `avg(triage_latency_ms)`, null over no rows. -/
def avgLatency (t : Table) : Option ℚ :=
  if t.rows.isEmpty then none else some ((t.rows.map (·.triageLatencyMs)).sum / t.rows.length)

end Table

/-- Which complaints a list is asked for. -/
structure ComplaintFilters where
  category : Option Category
  priority : Option Priority
  status : Option Status
  deriving DecidableEq, Repr

/-- `WHERE`: each filter that is given. -/
def ComplaintFilters.keeps (f : ComplaintFilters) (c : Complaint) : Bool :=
  f.category.all (· == c.category) && f.priority.all (· == c.priority) && f.status.all (· == c.status)

/-- `ORDER BY created_at DESC, id`. -/
def Complaint.order (c : Complaint) : Intᵒᵈ ×ₗ Uuid := toLex (OrderDual.toDual c.createdAt, c.id)

namespace Table

/-- No two rows have one place in a listing. -/
theorem order_nodup (t : Table) (f : ComplaintFilters) : ((t.rows.filter f.keeps).map Complaint.order).Nodup := by
  have hids : ((t.rows.filter f.keeps).map (·.id)).Nodup := t.nodup.sublist (List.filter_sublist.map _)
  exact List.Nodup.of_map (fun k => (ofLex k).2) (by rwa [List.map_map])

theorem sum_groupBy (t : Table) (col : Column) : ((t.groupBy col).map Prod.snd).sum = t.rows.length := by
  have h := List.sum_map_count_dedup_eq_length (t.rows.map col.key)
  rw [List.length_map] at h
  rw [groupBy, List.map_map]
  show ((t.rows.map col.key).dedup.map fun k => (t.rows.map col.key).count k).sum = _
  convert h
  rfl

theorem groupBy_keys_nodup (t : Table) (col : Column) : ((t.groupBy col).map Prod.fst).Nodup := by
  rw [groupBy, List.map_map, show Prod.fst ∘ (fun k => (k, (t.rows.map col.key).count k)) = id from rfl, List.map_id]
  exact List.nodup_dedup _

/-! ## Finding rows -/

theorem find_some {t : Table} {id : Uuid} {c : Complaint} (h : t.find id = some c) : c ∈ t.rows ∧ c.id = id :=
  ⟨List.mem_of_find?_eq_some h, by simpa using List.find?_some h⟩

theorem find_isSome {t : Table} {id : Uuid} : (t.find id).isSome = true ↔ id ∈ t.ids := by
  simp [find, ids]

theorem find_none {t : Table} {id : Uuid} : t.find id = none ↔ id ∉ t.ids := by
  rw [← find_isSome, Option.not_isSome_iff_eq_none]

theorem rows_insert {t : Table} {c : Complaint} (h : c.id ∉ t.ids) : (t.insert c).rows = t.rows ++ [c] := by
  rw [insert, dif_neg h]

theorem ids_insert {t : Table} {c : Complaint} (h : c.id ∉ t.ids) : (t.insert c).ids = t.ids ++ [c.id] := by
  rw [ids, rows_insert h, List.map_append]
  rfl

@[simp] theorem ids_setStatus (t : Table) (id : Uuid) (s : Status) (at_ : Int) : (t.setStatus id s at_).ids = t.ids := by
  simp only [ids, setStatus, List.map_map]
  refine List.map_congr_left fun c _ => ?_
  simp only [Function.comp_apply]
  split <;> rfl

theorem find_insert {t : Table} {c : Complaint} (h : c.id ∉ t.ids) (id : Uuid) :
    (t.insert c).find id = if id = c.id then some c else t.find id := by
  rw [find, rows_insert h, List.find?_append]
  by_cases e : id = c.id
  · subst e
    have hn : t.rows.find? (·.id == c.id) = none := find_none.mpr h
    rw [hn]
    simp
  · have hne : (c.id == id) = false := by simpa using fun he => e he.symm
    simp [hne, e, find]

theorem find_setStatus (t : Table) (id : Uuid) (s : Status) (at_ : Int) (j : Uuid) :
    (t.setStatus id s at_).find j =
      (t.find j).map fun c => if j = id then { c with status := s, updatedAt := at_ } else c := by
  have key : ∀ c : Complaint, (if c.id = id then { c with status := s, updatedAt := at_ } else c).id = c.id := by
    intro c
    split <;> rfl
  simp only [find, setStatus, List.find?_map, Function.comp_def, key]
  refine Option.map_congr fun c hc => ?_
  have hj : c.id = j := by simpa using List.find?_some hc
  rw [hj]

end Table

/-! ## A session's writes -/

inductive Write where
  | insert (c : Complaint)
  | setStatus (id : Uuid) (s : Status) (at_ : Int)
  deriving DecidableEq

def Write.apply (t : Table) : Write → Table
  | .insert c => t.insert c
  | .setStatus id s at_ => t.setStatus id s at_

/-- The table as the session that made these writes sees it. -/
def Table.after (t : Table) (ws : List Write) : Table := ws.foldl Write.apply t

namespace Table

variable {t t' : Table} {id : Uuid}

@[simp] theorem after_nil : t.after [] = t := rfl

@[simp] theorem after_cons (w : Write) (ws : List Write) : t.after (w :: ws) = (w.apply t).after ws := rfl

theorem find_insert_of_ne {c : Complaint} (h : id ≠ c.id) : (t.insert c).find id = t.find id := by
  by_cases hc : c.id ∈ t.ids
  · rw [insert, dif_pos hc]
  · rw [find_insert hc, if_neg h]

/-- What becomes of a row depends on that row. -/
theorem find_apply_congr (h : t.find id = t'.find id) (w : Write) : (w.apply t).find id = (w.apply t').find id := by
  cases w with
  | insert c =>
    show (t.insert c).find id = (t'.insert c).find id
    by_cases e : id = c.id
    · subst e
      by_cases hc : c.id ∈ t.ids
      · have hc' : c.id ∈ t'.ids := find_isSome.mp (h ▸ find_isSome.mpr hc)
        rw [insert, dif_pos hc, insert, dif_pos hc', h]
      · have hc' : c.id ∉ t'.ids := find_none.mp (h ▸ find_none.mpr hc)
        rw [find_insert hc, find_insert hc', h]
    · rw [find_insert_of_ne e, find_insert_of_ne e, h]
  | setStatus j s at_ => rw [Write.apply, Write.apply, find_setStatus, find_setStatus, h]

theorem find_after_congr (h : t.find id = t'.find id) (ws : List Write) : (t.after ws).find id = (t'.after ws).find id := by
  induction ws generalizing t t' with
  | nil => exact h
  | cons w ws ih => exact ih (find_apply_congr h w)

/-- An id is in the table when it was, or was inserted. -/
theorem mem_ids_apply (w : Write) : id ∈ (w.apply t).ids ↔ id ∈ t.ids ∨ ∃ c, w = .insert c ∧ c.id = id := by
  cases w with
  | insert c =>
    show id ∈ (t.insert c).ids ↔ _
    have hnew : (∃ d, Write.insert c = .insert d ∧ d.id = id) ↔ c.id = id := by simp
    rw [hnew]
    by_cases hc : c.id ∈ t.ids
    · rw [insert, dif_pos hc]
      exact ⟨.inl, fun h => h.elim (fun h => h) fun h => h ▸ hc⟩
    · rw [ids_insert hc, List.mem_append, List.mem_singleton, eq_comm (a := id)]
  | setStatus j s at_ =>
    rw [Write.apply, ids_setStatus]
    simp

theorem mem_ids_after (ws : List Write) : id ∈ (t.after ws).ids ↔ id ∈ t.ids ∨ ∃ c, .insert c ∈ ws ∧ c.id = id := by
  induction ws generalizing t with
  | nil => simp
  | cons w ws ih =>
    rw [after_cons, ih, mem_ids_apply, or_assoc]
    refine or_congr_right ⟨fun h => ?_, fun h => ?_⟩
    · rcases h with ⟨c, rfl, hc⟩ | ⟨c, hmem, hc⟩
      · exact ⟨c, List.mem_cons_self, hc⟩
      · exact ⟨c, List.mem_cons_of_mem _ hmem, hc⟩
    · obtain ⟨c, hmem, hc⟩ := h
      rcases List.mem_cons.mp hmem with rfl | hmem
      · exact .inl ⟨c, rfl, hc⟩
      · exact .inr ⟨c, hmem, hc⟩

/-- Insertions of other rows. -/
theorem find_after_inserts {cs : List Complaint} (h : ∀ c ∈ cs, c.id ≠ id) : (t.after (cs.map .insert)).find id = t.find id := by
  induction cs generalizing t with
  | nil => rfl
  | cons c cs ih =>
    rw [List.map_cons, after_cons, ih fun d hd => h d (List.mem_cons_of_mem _ hd)]
    exact find_insert_of_ne (h c List.mem_cons_self).symm

end Table

/-! ## Growth -/

/-- The same complaint, with another status perhaps. -/
def Complaint.Later (c c' : Complaint) : Prop := c' = { c with status := c'.status, updatedAt := c'.updatedAt }

/-- Every complaint is still there. -/
def Table.Grows (t t' : Table) : Prop := ∀ c ∈ t.rows, ∃ c' ∈ t'.rows, c.Later c'

theorem Complaint.Later.trans {c c' c'' : Complaint} (h : c.Later c') (h' : c'.Later c'') : c.Later c'' := by
  rw [Later] at h h' ⊢
  rw [h', h]

namespace Table.Grows

theorem refl (t : Table) : t.Grows t := fun c hc => ⟨c, hc, rfl⟩

theorem trans {t t' t'' : Table} (h : t.Grows t') (h' : t'.Grows t'') : t.Grows t'' := by
  intro c hc
  obtain ⟨c', hc', hl⟩ := h c hc
  obtain ⟨c'', hc'', hl'⟩ := h' c' hc'
  exact ⟨c'', hc'', hl.trans hl'⟩

theorem apply (t : Table) (w : Write) : t.Grows (w.apply t) := by
  intro c hc
  cases w with
  | insert d =>
    refine ⟨c, ?_, rfl⟩
    show c ∈ (t.insert d).rows
    by_cases h : d.id ∈ t.ids
    · rwa [Table.insert, dif_pos h]
    · rw [rows_insert h]
      exact List.mem_append_left _ hc
  | setStatus id s at_ =>
    refine ⟨_, List.mem_map_of_mem hc, ?_⟩
    split <;> rfl

theorem after (t : Table) (ws : List Write) : t.Grows (t.after ws) := by
  induction ws generalizing t with
  | nil => exact refl t
  | cons w ws ih => exact (apply t w).trans (ih _)

theorem ids {t t' : Table} (h : t.Grows t') : t.ids ⊆ t'.ids := by
  intro id hid
  obtain ⟨c, hc, rfl⟩ := List.mem_map.mp hid
  obtain ⟨c', hc', hl⟩ := h c hc
  have hid' : c'.id = c.id := by rw [hl]
  exact List.mem_map.mpr ⟨c', hc', hid'⟩

end Table.Grows

/-- New rows are there. -/
theorem Table.mem_after_inserts {t : Table} {cs : List Complaint} (hnodup : (cs.map (·.id)).Nodup) (hnew : ∀ c ∈ cs, c.id ∉ t.ids)
    {c : Complaint} (hc : c ∈ cs) : c ∈ (t.after (cs.map .insert)).rows := by
  have hfind : (t.after (cs.map .insert)).find c.id = some c := by
    induction cs generalizing t with
    | nil => cases hc
    | cons d cs ih =>
      rw [List.map_cons, List.nodup_cons] at hnodup
      rw [List.map_cons, after_cons]
      have hd := hnew d List.mem_cons_self
      rcases List.mem_cons.mp hc with rfl | hc
      · rw [find_after_inserts fun e he h => hnodup.1 (List.mem_map.mpr ⟨e, he, h⟩)]
        exact (find_insert hd _).trans (if_pos rfl)
      · refine ih hnodup.2 (fun e he => ?_) hc
        rw [mem_ids_apply]
        intro h
        rcases h with h | ⟨d', hd', h⟩
        · exact hnew e (List.mem_cons_of_mem _ he) h
        · cases hd'
          exact hnodup.1 (List.mem_map.mpr ⟨e, he, h.symm⟩)
  exact (find_some hfind).1

end CivicPulse
