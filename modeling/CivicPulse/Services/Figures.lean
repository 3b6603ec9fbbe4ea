/-
  CivicPulse.Services.Figures — the five answers of `aggregates`, and the statistics made
  of them.

  - `loads_stats`: statistics are read back from the cache as they were put there.
  - `sum_counts` / `sum_groups`: the groups of a column sum up to the number of rows, also
    once they are rebuilt on the enum's members.
  - `counts_of`: the statistics made of one table's five answers count its rows.
-/

import Mathlib.Algebra.BigOperators.Ring.Finset
import CivicPulse.Services.Complaints

namespace CivicPulse

open Text Lang

/-! ## Five answers -/

/-- One answered `SELECT`. -/
abbrev Figure := Σ q : Query, q.Ans

structure Figures where
  counted : Nat × Option ℚ
  category : List (Str × Nat)
  priority : List (Str × Nat)
  status : List (Str × Nat)
  triagedBy : List (Str × Nat)

/-- `grouped`'s dict. -/
def groupDict (rows : List (Str × Nat)) : Dict Str Int := Dict.ofList (rows.map fun kv => (kv.1, (kv.2 : Int)))

namespace Figures

/-- The answers in `aggregates`' order, newest first. -/
def reads (f : Figures) : List Figure :=
  [⟨.groupBy .triagedBy, f.triagedBy⟩, ⟨.groupBy .status, f.status⟩, ⟨.groupBy .priority, f.priority⟩,
    ⟨.groupBy .category, f.category⟩, ⟨.countAvg, f.counted⟩]

def aggregates (f : Figures) : Aggregates :=
  ⟨f.counted.1, groupDict f.category, groupDict f.priority, groupDict f.status, groupDict f.triagedBy, f.counted.2⟩

def stats (f : Figures) (at_ : Int) : StatsOut := StatsService.statsOf f.aggregates at_

end Figures

/-- Every count is a `bigint`. -/
def Query.Small : (q : Query) → q.Ans → Prop
  | .countAvg, a => a.1 < 2 ^ 63
  | .groupBy _, l => ∀ e ∈ l, e.2 < 2 ^ 63
  | _, _ => True

theorem eval_small {t : Table} {q : Query} (h : q.fits t = true) : q.Small (q.eval t) := by
  cases q with
  | countAvg =>
    show t.rows.length < 2 ^ 63
    simpa [Query.fits] using h
  | groupBy col =>
    intro e he
    obtain ⟨k, -, rfl⟩ := List.mem_map.mp he
    have hrows : t.rows.length < 2 ^ 63 := by simpa [Query.fits] using h
    have hle := List.count_le_length (a := k) (l := t.rows.map col.key)
    rw [List.length_map] at hle
    exact hle.trans_lt hrows
  | byId id => trivial
  | count f => trivial
  | page f offset limit => trivial

structure Figures.Small (f : Figures) : Prop where
  counted : Query.Small .countAvg f.counted
  category : Query.Small (.groupBy .category) f.category
  priority : Query.Small (.groupBy .priority) f.priority
  status : Query.Small (.groupBy .status) f.status
  triagedBy : Query.Small (.groupBy .triagedBy) f.triagedBy

/-! ## The round trip through the cache -/

/-- Not negative, and a `bigint`. -/
def Countable (n : Int) : Prop := 0 ≤ n ∧ n < 2 ^ 63

theorem plain_int {n : Int} (h : Countable n) : Json.plain (.int n) = true := by
  have hlen : (natText n.natAbs).length ≤ 19 := by
    refine (Nat.length_toDigits_le_iff (by decide) (by decide)).mpr ?_
    have := h.2
    have h0 := h.1
    omega
  simp only [Json.plain, decide_eq_true_eq]
  omega

theorem plain_dictJson {κ : Type} {f : κ → Str} {d : Dict κ Int} (h : ∀ e ∈ d.entries, Countable e.2) :
    (dictJson f d).plain = true := by
  have key : ∀ l : List (κ × Int), (∀ e ∈ l, Countable e.2) →
      Json.plainMembers (l.map fun e => (codes (f e.1), .int e.2)) = true := by
    intro l hl
    induction l with
    | nil => rfl
    | cons e l ih =>
      rw [List.map_cons, Json.plainMembers, Json.codes_scalar, plain_int (hl e List.mem_cons_self),
        ih fun e he => hl e (List.mem_cons_of_mem _ he)]
      rfl
  exact key _ h

theorem depth_dictJson {κ : Type} (f : κ → Str) (d : Dict κ Int) : (dictJson f d).depth = 1 := by
  have key : ∀ l : List (κ × Int), Json.depthMembers (l.map fun e => (codes (f e.1), .int e.2)) = 0 := by
    intro l
    induction l with
    | nil => rfl
    | cons e l ih => rw [List.map_cons, Json.depthMembers, ih]; rfl
  rw [dictJson, Json.depth, key]

theorem groupDict_countable {rows : List (Str × Nat)} (h : ∀ e ∈ rows, e.2 < 2 ^ 63) :
    ∀ e ∈ (groupDict rows).entries, Countable e.2 := by
  intro e he
  obtain ⟨kv, hkv, rfl⟩ := List.mem_map.mp (Dict.mem_ofList he)
  have := h kv hkv
  exact ⟨by simp, by simpa using by omega⟩

theorem counts_countable (α : Type) [DecidableEq α] [StrEnum α] {d : Dict Str Int} (h : ∀ e ∈ d.entries, Countable e.2) :
    ∀ e ∈ (StatsService.counts α d).entries, Countable e.2 := by
  intro e he
  obtain ⟨a, -, rfl⟩ := List.mem_map.mp he
  show Countable ((d.get (value a)).getD 0)
  cases hg : d.get (value a) with
  | none => exact ⟨le_refl _, by decide⟩
  | some n => exact h _ (Dict.mem_of_get hg)

section

variable [Platform] {f : Figures}

/-- Statistics come back from the cache as they were put there. -/
theorem loads_stats (hf : f.Small) (at_ : Int) :
    JsonCache.loadsRaw (.text (f.stats at_).modelDump.dumps) = .ok (f.stats at_).modelDump := by
  have hplain : (f.stats at_).modelDump.plain = true := by
    have ht : Json.plain (.int (f.stats at_).total) = true := by
      have h : f.counted.1 < 2 ^ 63 := hf.counted
      exact plain_int (n := (f.counted.1 : Int)) ⟨Int.natCast_nonneg _, by exact_mod_cast h⟩
    have hc : (dictJson value (f.stats at_).byCategory).plain = true :=
      plain_dictJson (counts_countable Category (groupDict_countable hf.category))
    have hp : (dictJson value (f.stats at_).byPriority).plain = true :=
      plain_dictJson (counts_countable Priority (groupDict_countable hf.priority))
    have hs : (dictJson value (f.stats at_).byStatus).plain = true :=
      plain_dictJson (counts_countable Status (groupDict_countable hf.status))
    have hb : (dictJson id (f.stats at_).byTriagedBy).plain = true :=
      plain_dictJson (groupDict_countable hf.triagedBy)
    have hg : Json.plain (.str (codes (dumpDatetime (f.stats at_).generatedAt))) = true := Json.codes_scalar _
    show Json.plainMembers (f.stats at_).dumpItems = true
    have hnull : Json.plain .null = true := rfl
    have hfloat : ∀ x, Json.plain (.float x) = true := fun _ => rfl
    rw [StatsOut.dumpItems]
    cases (f.stats at_).avgTriageLatencyMs with
    | none => simp only [Json.plainMembers, Json.codes_scalar, ht, hc, hp, hs, hb, hg, hnull, Bool.and_self]
    | some x => simp only [Json.plainMembers, Json.codes_scalar, ht, hc, hp, hs, hb, hg, hfloat, Bool.and_self]
  have hdepth : (f.stats at_).modelDump.depth ≤ recursionLimit := by
    refine Nat.le_trans ?_ Platform.recursionLimit_ge
    rw [StatsOut.modelDump, StatsOut.dumpItems, Json.depth]
    cases (f.stats at_).avgTriageLatencyMs with
    | none => simp [Json.depthMembers, depth_dictJson, Json.depth]
    | some x => simp [Json.depthMembers, depth_dictJson, Json.depth]
  exact JsonCache.loadsRaw_dumps hplain hdepth

end

/-! ## Sums -/

/-- The groups of a column count every row once. -/
theorem sum_groups (t : Table) (col : Table.Column) : (groupDict (t.groupBy col)).sum = t.rows.length := by
  have hnodup : (((t.groupBy col).map fun kv => (kv.1, (kv.2 : Int))).map Prod.fst).Nodup := by
    simpa [List.map_map, Function.comp_def] using t.groupBy_keys_nodup col
  rw [Dict.sum, groupDict, Dict.entries_ofList hnodup, ← t.sum_groupBy col, List.map_map]
  simp [Function.comp_def, Nat.cast_list_sum]

theorem find?_self {α : Type} [DecidableEq α] (l : List α) (k : α) :
    l.find? (fun x => x == k) = if k ∈ l then some k else none := by
  induction l with
  | nil => rfl
  | cons a l ih =>
    by_cases e : a = k
    · simp [e]
    · simp [e, Ne.symm e, ih]

/-- A key's group, which may be missing, counts the rows with that key. -/
theorem groupDict_get (t : Table) (col : Table.Column) (k : Str) :
    (groupDict (t.groupBy col)).get k = if k ∈ t.rows.map col.key then some ((t.rows.map col.key).count k : Int) else none := by
  have hnodup : (((t.groupBy col).map fun kv => (kv.1, (kv.2 : Int))).map Prod.fst).Nodup := by
    simpa [List.map_map, Function.comp_def] using t.groupBy_keys_nodup col
  rw [Dict.get, groupDict, Dict.entries_ofList hnodup, Table.groupBy, List.map_map, List.find?_map]
  simp only [Function.comp_def]
  rw [find?_self]
  by_cases hk : k ∈ t.rows.map col.key
  · rw [if_pos (List.mem_dedup.mpr hk), if_pos hk]
    rfl
  · rw [if_neg fun h => hk (List.mem_dedup.mp h), if_neg hk]
    rfl

theorem get_groupDict (t : Table) (col : Table.Column) (k : Str) :
    ((groupDict (t.groupBy col)).get k).getD 0 = ((t.rows.map col.key).count k : Int) := by
  rw [groupDict_get]
  by_cases hk : k ∈ t.rows.map col.key
  · rw [if_pos hk]
    rfl
  · rw [if_neg hk, List.count_eq_zero.mpr hk]
    rfl

theorem sum_indicator {α : Type} [DecidableEq α] (l : List α) (b : α) :
    (l.map fun a => if b = a then 1 else 0).sum = l.count b := by
  induction l with
  | nil => rfl
  | cons a l ih =>
    rw [List.map_cons, List.sum_cons, ih, List.count_cons, Nat.add_comm]
    by_cases e : b = a
    · simp [e]
    · simp [e, Ne.symm e]

/-- Over an enum's members, all rows are counted, each once. -/
theorem sum_members {α : Type} [DecidableEq α] [StrEnum α] (f : Complaint → α) (rows : List Complaint) :
    ((members : List α).map fun a => (rows.map fun r => value (f r)).count (value a)).sum = rows.length := by
  induction rows with
  | nil => simp
  | cons r rows ih =>
    have hone : ((members : List α).map fun a => if f r = a then 1 else 0).sum = 1 := by
      rw [sum_indicator]
      exact List.count_eq_one_of_mem StrEnum.nodup (StrEnum.complete _)
    have hcount : ∀ a : α, ((r :: rows).map fun r => value (f r)).count (value a) =
        (rows.map fun r => value (f r)).count (value a) + if f r = a then 1 else 0 := by
      intro a
      rw [List.map_cons, List.count_cons]
      congr 1
      by_cases e : f r = a
      · simp [e]
      · have hne : value (f r) ≠ value a := fun h => e (StrEnum.value_inj h)
        simp [e, hne]
    simp only [hcount, List.sum_map_add, ih, hone, List.length_cons]

/-- The groups of an enum's column, rebuilt on its members. -/
theorem sum_counts {α : Type} [DecidableEq α] [StrEnum α] (t : Table) {col : Table.Column} {f : Complaint → α}
    (hcol : ∀ c, col.key c = value (f c)) : (StatsService.counts α (groupDict (t.groupBy col))).sum = t.rows.length := by
  have hkey : col.key = fun r => value (f r) := funext hcol
  rw [← sum_members f t.rows, Dict.sum, StatsService.counts, Dict.ofFn, List.map_map]
  simp only [Function.comp_def, get_groupDict, hkey]
  rw [Nat.cast_list_sum, List.map_map]
  rfl

/-! ## One table -/

/-- All five answers about one table. -/
def Figures.of (t : Table) : Figures :=
  ⟨Query.countAvg.eval t, t.groupBy .category, t.groupBy .priority, t.groupBy .status, t.groupBy .triagedBy⟩

theorem Figures.small_of {t : Table} (h : t.rows.length < 2 ^ 63) : (Figures.of t).Small := by
  have hg : ∀ col, Query.Small (.groupBy col) (t.groupBy col) := fun col =>
    eval_small (q := .groupBy col) (by simpa [Query.fits] using h)
  exact ⟨h, hg _, hg _, hg _, hg _⟩

/-- The statistics of a table, counted row by row. -/
structure Counts (t : Table) (s : StatsOut) : Prop where
  total : s.total = t.rows.length
  byCategory : ∀ c, s.byCategory.get c = some ((t.rows.map (·.category)).count c : Int)
  byPriority : ∀ p, s.byPriority.get p = some ((t.rows.map (·.priority)).count p : Int)
  byStatus : ∀ a, s.byStatus.get a = some ((t.rows.map (·.status)).count a : Int)
  byTriagedBy : ∀ k, s.byTriagedBy.get k =
    if k ∈ t.rows.map (·.triagedBy) then some ((t.rows.map (·.triagedBy)).count k : Int) else none
  average : s.avgTriageLatencyMs = t.avgLatency.map round1

/-- A member's group, rebuilt on the members, counts the rows with that member. -/
theorem get_counts {α : Type} [DecidableEq α] [StrEnum α] (t : Table) {col : Table.Column} {f : Complaint → α}
    (hcol : ∀ c, col.key c = value (f c)) (a : α) :
    (StatsService.counts α (groupDict (t.groupBy col))).get a = some ((t.rows.map f).count a : Int) := by
  have hkeys : t.rows.map col.key = (t.rows.map f).map value := by
    rw [List.map_map]
    exact List.map_congr_left fun c _ => hcol c
  rw [StatsService.counts, Dict.get_ofFn _ _ (StrEnum.complete a), get_groupDict, hkeys,
    List.count_map_of_injective _ _ fun _ _ h => StrEnum.value_inj h]

theorem counts_of (t : Table) (at_ : Int) : Counts t ((Figures.of t).stats at_) where
  total := rfl
  byCategory c := get_counts t (fun _ => rfl) c
  byPriority p := get_counts t (fun _ => rfl) p
  byStatus a := get_counts t (fun _ => rfl) a
  byTriagedBy k := groupDict_get t .triagedBy k
  average := rfl

end CivicPulse
