/-
  CivicPulse.Lang.Dict — Python's `dict`: pairs in insertion order, no key twice.

  - `ofList_entries`: building a dict from a dict's pairs gives it back.
  - `get_ofFn`: a comprehension `{k: f(k) for k in ks}` answers `f k`.
  - `mem_ofList`: a dict holds only pairs it was built from.
-/

import Mathlib.Algebra.Ring.Int.Defs
import Mathlib.Data.List.Nodup

namespace CivicPulse.Lang

structure Dict (κ ν : Type) where
  entries : List (κ × ν)
  nodup : (entries.map Prod.fst).Nodup

namespace Dict

variable {κ ν : Type} [DecidableEq κ]

instance [DecidableEq ν] : DecidableEq (Dict κ ν) := fun d e =>
  decidable_of_iff (d.entries = e.entries) ⟨fun h => by cases d; cases e; cases h; rfl, fun h => h ▸ rfl⟩

omit [DecidableEq κ] in
theorem ext_entries {d e : Dict κ ν} (h : d.entries = e.entries) : d = e := by
  cases d; cases e; cases h; rfl

def empty : Dict κ ν := ⟨[], .nil⟩

def keys (d : Dict κ ν) : List κ := d.entries.map Prod.fst

def get (d : Dict κ ν) (k : κ) : Option ν := (d.entries.find? (·.1 == k)).map Prod.snd

/-- `d[k] = v`: the key keeps its place if it has one. -/
def set (d : Dict κ ν) (k : κ) (v : ν) : Dict κ ν :=
  if h : k ∈ d.keys then
    ⟨d.entries.map fun e => if e.1 = k then (k, v) else e, by
      have : (d.entries.map fun e => if e.1 = k then (k, v) else e).map Prod.fst = d.entries.map Prod.fst := by
        rw [List.map_map]
        refine List.map_congr_left fun e _ => ?_
        simp only [Function.comp_apply]
        split
        · exact (by assumption : e.1 = k).symm
        · rfl
      rw [this]
      exact d.nodup⟩
  else
    ⟨d.entries ++ [(k, v)], by
      rw [List.map_append, List.map_singleton, ← List.concat_eq_append]
      exact d.nodup.concat h⟩

def ofList (l : List (κ × ν)) : Dict κ ν := l.foldl (fun d e => d.set e.1 e.2) empty

theorem foldl_set (l : List (κ × ν)) (d : Dict κ ν) (h : ((d.entries ++ l).map Prod.fst).Nodup) :
    (l.foldl (fun d e => d.set e.1 e.2) d).entries = d.entries ++ l := by
  induction l generalizing d with
  | nil => simp
  | cons e l ih =>
    have hnot : e.1 ∉ d.keys := by
      intro hm
      rw [List.map_append, List.map_cons] at h
      exact (List.nodup_append.mp h).2.2 _ hm _ (List.mem_cons_self) rfl
    have hset : (d.set e.1 e.2).entries = d.entries ++ [e] := by rw [set, dif_neg hnot]
    rw [List.foldl_cons, ih _ (by rw [hset]; simpa using h), hset]
    simp

/-- The dict with pairs that already have distinct keys. -/
theorem entries_ofList {l : List (κ × ν)} (h : (l.map Prod.fst).Nodup) : (ofList l).entries = l :=
  foldl_set l empty (by simpa [empty] using h)

theorem ofList_entries (d : Dict κ ν) : ofList d.entries = d := ext_entries (entries_ofList d.nodup)

/-- `{k: f(k) for k in ks}`. -/
def ofFn (ks : List κ) (h : ks.Nodup) (f : κ → ν) : Dict κ ν := ⟨ks.map fun k => (k, f k), by simpa [Function.comp_def]⟩

theorem get_ofFn {ks : List κ} (h : ks.Nodup) (f : κ → ν) {k : κ} (hk : k ∈ ks) : (ofFn ks h f).get k = some (f k) := by
  have : (ks.map fun k => (k, f k)).find? (·.1 == k) = some (k, f k) := by
    induction ks with
    | nil => cases hk
    | cons a ks ih =>
      by_cases e : a = k
      · subst e; simp
      · have hk' : k ∈ ks := by
          rcases List.mem_cons.mp hk with rfl | hk
          · exact absurd rfl e
          · exact hk
        simpa [e] using ih (List.nodup_cons.mp h).2 hk'
  simp only [get, ofFn, this, Option.map_some]

theorem mem_set {d : Dict κ ν} {k : κ} {v : ν} {e : κ × ν} (h : e ∈ (d.set k v).entries) : e ∈ d.entries ∨ e = (k, v) := by
  unfold set at h
  split at h
  · obtain ⟨e', he', rfl⟩ := List.mem_map.mp h
    split
    · exact .inr rfl
    · exact .inl he'
  · rcases List.mem_append.mp h with h | h
    · exact .inl h
    · exact .inr (List.mem_singleton.mp h)

theorem mem_foldl_set {e : κ × ν} (l : List (κ × ν)) : ∀ d : Dict κ ν, e ∈ (l.foldl (fun d e => d.set e.1 e.2) d).entries →
    e ∈ d.entries ∨ e ∈ l := by
  induction l with
  | nil => exact fun d h => .inl h
  | cons x l ih =>
    intro d h
    rcases ih _ h with h | h
    · rcases mem_set h with h | h
      · exact .inl h
      · exact .inr (h ▸ List.mem_cons_self)
    · exact .inr (List.mem_cons_of_mem _ h)

/-- A dict holds only pairs it was built from. -/
theorem mem_ofList {l : List (κ × ν)} {e : κ × ν} (h : e ∈ (ofList l).entries) : e ∈ l :=
  (mem_foldl_set l empty h).resolve_left (by simp [empty])

/-- A pair stays when another key is set. -/
theorem mem_set_of_ne {d : Dict κ ν} {e : κ × ν} (h : e ∈ d.entries) {k : κ} (hk : k ≠ e.1) (v : ν) : e ∈ (d.set k v).entries := by
  unfold set
  split
  · exact List.mem_map.mpr ⟨e, h, if_neg (Ne.symm hk)⟩
  · exact List.mem_append_left _ h

theorem mem_foldl_of_ne {e : κ × ν} {l : List (κ × ν)} (hl : ∀ x ∈ l, x.1 ≠ e.1) :
    ∀ {d : Dict κ ν}, e ∈ d.entries → e ∈ (l.foldl (fun d e => d.set e.1 e.2) d).entries := by
  induction l with
  | nil => exact fun h => h
  | cons x l ih =>
    intro d h
    exact ih (fun y hy => hl y (List.mem_cons_of_mem _ hy)) (mem_set_of_ne h (hl x List.mem_cons_self) _)

omit [DecidableEq κ] in
/-- A key has one value. -/
theorem value_unique {d : Dict κ ν} {k : κ} {v v' : ν} (h : (k, v) ∈ d.entries) (h' : (k, v') ∈ d.entries) : v = v' :=
  (Prod.mk.inj (List.inj_on_of_nodup_map d.nodup h h' rfl)).2

theorem mem_of_get {d : Dict κ ν} {k : κ} {v : ν} (h : d.get k = some v) : (k, v) ∈ d.entries := by
  obtain ⟨e, he, rfl⟩ := Option.map_eq_some_iff.mp h
  have hk : e.1 = k := by simpa using List.find?_some he
  exact hk ▸ List.mem_of_find?_eq_some he

/-- The sum of the values. -/
def sum {κ : Type} (d : Dict κ Int) : Int := (d.entries.map Prod.snd).sum

end Dict

end CivicPulse.Lang
