/-
  CivicPulse.Runs.Seeding — any number of seeders among the other clients of one database.

  Proved:
  - `seeded_once`: when the seeders have ended and one has returned, every seed is there once;
    every other row, and a seed that was there at the start, is what the other clients made
    of it; the first seeder to commit has inserted the absent seeds, every other one nothing.
  - `can_end`: whatever the others are in the middle of, the seeders can run to their ends,
    one after the other.
  - `seeding_idempotent`: both, from any table; a seeder fails with the connection only.
-/

import CivicPulse.Runs.SeederRuns

namespace CivicPulse.Seeding

open Text Lang
open Function (update)

variable [Platform] (E : Env) (uuid5 : Uuid → Str → Uuid)

/-! ## Any interleaving -/

/-- The client is a seeder. -/
def Client.seeds : Client → Bool
  | request _ _ => false
  | seeder => true

def outline (t₀ : Table) : Outline (machine E) Client Result Loc where
  toProtocol := protocol E uuid5
  post := Post E
  inv := Inv uuid5 t₀
  belongs c l := l.seeds = c.seeds

section

variable {E uuid5} {t₀ : Table} {w : World} {ls : Nat → Option Loc} {i : Nat} {P : Pool (machine E) Client Result}

theorem sound (hnodup : (Seed.ids uuid5).Nodup) (hfresh : ∀ n, E.uuid n ∉ Seed.ids uuid5) (t₀ : Table) :
    (outline E uuid5 t₀).Sound (code uuid5) where
  start := by
    intro w ls i c h hi
    exact ⟨begun c, inv_start h hi c, by cases c <;> rfl, code_follows c⟩
  exec := by
    intro w ls i l o h hl hcan hen
    cases hseeds : l.seeds with
    | true =>
      obtain ⟨l', hm, hs, hinv⟩ := seeder_step hnodup h hl hseeds hcan hen
      exact ⟨l', hm, hinv, fun c hc => hs.trans (hseeds.symm.trans hc)⟩
    | false =>
      cases l with
      | request fresh found =>
        obtain ⟨l', hm, hs, hinv⟩ := request_step hfresh h hl hcan hen
        exact ⟨l', hm, hinv, fun c hc => hs.trans (hseeds.symm.trans hc)⟩
      | _ => cases hseeds

/-- The thread is a seeder's. -/
def seeds (P : Pool (machine E) Client Result) (i : Nat) : Bool := (P.threads i).any fun t => t.call.seeds

theorem seeders_eq (h : (outline E uuid5 t₀).At P ls) : seeders ls = seeds P := by
  funext i
  rcases ht : P.threads i with _ | t
  · rw [seeders, seeds, h.idle i ht, ht]
    rfl
  · obtain ⟨l, hl, hb, -⟩ := h.busy i t ht
    rw [seeders, seeds, hl, ht]
    exact hb

/-- What a seeder has returned. -/
def inserted (P : Pool (machine E) Client Result) (i : Nat) : Nat :=
  match P.result i with
  | some (.inserted n) => n
  | _ => 0

/-- Every seeder has returned or raised. -/
def Ended (P : Pool (machine E) Client Result) : Prop :=
  ∀ i p, P.threads i = some ⟨.seeder, p⟩ → (∃ n, p = .ret (.inserted n)) ∨ ∃ e, p = .raise e

/-- The seeder that committed first. -/
def first (P : Pool (machine E) Client Result) : Option Nat := (committers (seeds P) P.shared.log).getLast?

end

/-- The seeds are there, each once; every other row, and a seed that was there at the start,
    is what the other clients' transactions alone make of the initial table. The first seeder
    to commit has inserted the absent seeds, every other one nothing. -/
structure SeededOnce (t₀ : Table) (P : Pool (machine E) Client Result) : Prop where
  present : ∀ id ∈ Seed.ids uuid5, P.shared.db.table.ids.count id = 1
  others : ∀ id, id ∉ absent uuid5 t₀ →
    P.shared.db.table.find id = (replay t₀ (theirs (seeds P) P.shared.db.commits)).find id
  rows : ∃ now rows, Seed.buildSeedComplaints uuid5 now = .ok rows ∧
    ∀ c ∈ rows, c.id ∈ absent uuid5 t₀ → ∃ c' ∈ P.shared.db.table.rows, c.Later c'
  counts : ∀ i, inserted P i = if first P = some i then (absent uuid5 t₀).length else 0
  sum : ∀ is : List Nat, is.Nodup → (∀ i, i ∈ is ↔ seeds P i = true) → (is.map (inserted P)).sum = (absent uuid5 t₀).length

section

variable {E uuid5} {t₀ : Table} {w : World} {ls : Nat → Option Loc} {i : Nat} {P : Pool (machine E) Client Result}

theorem inserted_of_seeds (hs : seeds P i = false) (h : (outline E uuid5 t₀).At P ls) : inserted P i = 0 := by
  rw [inserted]
  split
  · rename_i n hr
    obtain ⟨c, ht⟩ := Pool.result_some hr
    obtain ⟨l, hl, hb, hpost⟩ := h.busy i _ ht
    obtain rfl : l = .closed (some n) := hpost
    rw [seeds, ht] at hs
    rw [Option.any_some, ← hb] at hs
    cases hs
  · rfl

theorem seeded_once (h : (outline E uuid5 t₀).At P ls) (hend : Ended P)
    (hone : ∃ i n, P.threads i = some ⟨.seeder, .ret (.inserted n)⟩) : SeededOnce E uuid5 t₀ P := by
  have hinv := h.inv
  have hseeders := seeders_eq h
  obtain ⟨k, m, hk⟩ := hone
  have hne : committers (seeders ls) P.shared.log ≠ [] := by
    obtain ⟨l, hl, hpost⟩ := h.returned hk
    obtain rfl : l = .closed (some m) := hpost
    exact List.ne_nil_of_mem (hinv.fits k _ hl).2.1
  have hcounts : ∀ i, inserted P i = if first P = some i then (absent uuid5 t₀).length else 0 := by
    intro i
    rw [first, ← hseeders]
    have hnot : i ∉ committers (seeders ls) P.shared.log → (committers (seeders ls) P.shared.log).getLast? ≠ some i :=
      fun hn hlast => hn (List.mem_of_getLast? hlast)
    cases hs : seeds P i with
    | false =>
      rw [inserted_of_seeds hs h, if_neg (hnot fun hm => ?_)]
      obtain ⟨e, he, rfl⟩ := List.mem_map.mp hm
      have hseeder := (List.mem_filter.mp he).2
      rw [hseeders, hs, Bool.and_false] at hseeder
      cases hseeder
    | true =>
      obtain ⟨⟨c, p⟩, ht, hc⟩ : ∃ t, P.threads i = some t ∧ t.call.seeds = true := by simpa [seeds, Option.any_eq_true] using hs
      obtain rfl : c = .seeder := by
        cases c with
        | request app call => cases hc
        | seeder => rfl
      obtain ⟨l, hl, -, hpost⟩ := h.busy i _ ht
      have hfit := hinv.fits i l hl
      rcases hend i p ht with ⟨n, rfl⟩ | ⟨e, rfl⟩
      · obtain rfl : l = .closed (some n) := hpost
        rw [inserted, Pool.result, ht]
        exact hfit.2.2
      · obtain ⟨rfl, -⟩ : l = .closed none ∧ Faulty E := hpost rfl
        rw [inserted, Pool.result, ht, if_neg (hnot hfit.2)]
  obtain ⟨k₀, hk₀⟩ : ∃ k₀, first P = some k₀ := by
    rw [first, ← hseeders]
    exact ⟨_, List.getLast?_eq_some_getLast hne⟩
  refine ⟨fun id hid => List.count_eq_one_of_mem P.shared.db.table.nodup (seeds_present hinv hne hid), ?_, hinv.after hne, hcounts,
    fun is hnodup his => ?_⟩
  · rw [← hseeders]
    exact hinv.others
  · have hmem : k₀ ∈ is := by
      rw [his, ← hseeders]
      rw [first, ← hseeders] at hk₀
      obtain ⟨e, he, rfl⟩ := List.mem_map.mp (List.mem_of_getLast? hk₀)
      have hseeder := (List.mem_filter.mp he).2
      rw [Bool.and_eq_true] at hseeder
      exact hseeder.2
    rw [List.sum_map_eq_nsmul_single k₀ (inserted P) fun j hj _ => ?_, List.count_eq_one_of_mem hnodup hmem, one_nsmul, hcounts,
      if_pos hk₀]
    rw [hcounts, if_neg fun e => hj (Option.some.inj (e.symm.trans hk₀))]

/-! ## Seeders run to their ends -/

/-- Nobody but `i` holds the seeders' lock. -/
def Free (i : Nat) (w : World) : Prop := w.db.advisory lockKey = none ∨ w.db.advisory lockKey = some i

omit [Platform] in
theorem free_of {w : World} (h : ∀ j, w.db.advisory lockKey = some j → j = i) : Free i w := by
  rcases hadv : w.db.advisory lockKey with _ | j
  · exact .inl hadv
  · exact .inr (by rw [hadv, h j hadv])

theorem seeder_enabled (h : Inv uuid5 t₀ w ls) {l : Loc} (hl : ls i = some l) (hseeds : l.seeds = true) (hfree : Free i w) {o : Op}
    (hcan : Performs l o) : World.enabled i o w = true := by
  cases l with
  | request fresh found => cases hseeds
  | waiting =>
    rcases hcan with rfl | rfl
    · show (w.db.advisory lockKey).all (· == i) = true
      rcases hfree with hnone | hown
      · rw [hnone]
        rfl
      · rw [hown]
        simp
    · rfl
  | locked =>
    rcases hcan with rfl | rfl
    · rfl
    · rfl
  | seeding now todo missed inserted =>
    cases o with
    | insertRow c =>
      obtain ⟨rfl, rest, rfl⟩ := hcan
      obtain ⟨-, -, seen, hbuild, -, hmissed⟩ := h.fits i _ hl
      obtain ⟨c', rest', hc', habsent⟩ := hmissed rfl
      cases hc'
      -- whoever holds the row's lock holds the seeders'
      show (w.db.locks c.id).all (· == i) = true
      rcases hlock : w.db.locks c.id with _ | j
      · rfl
      · have hseed : c.id ∈ Seed.ids uuid5 := by
          rw [← (rows_of_build hbuild).1]
          exact List.mem_map_of_mem (by simp)
        have hc : c.id ∈ absent uuid5 t₀ := mem_absent.mpr ⟨hseed, fun ht => habsent (h.grows.ids ht)⟩
        have hj := (h.lock j).mpr ((h.rowLocks c.id hc j hlock).resolve_left habsent)
        rcases hfree with hnone | hown
        · rw [hnone] at hj
          cases hj
        · rw [hown] at hj
          cases hj
          simp
    | select q => rfl
    | commit => rfl
    | close => rfl
    | _ => exact hcan.elim
  | committed n =>
    obtain rfl : o = .close := hcan
    rfl
  | closed n => exact hcan.elim

theorem moves_seeds {l l' : Loc} {o : Op} {r : o.Ans} (hs : l.seeds = true) (hcan : Performs l o) (h : Moves E uuid5 l o r l') :
    l'.seeds = true := by
  cases l with
  | request fresh found => cases hs
  | waiting =>
    rcases hcan with rfl | rfl
    · cases r with
      | error e => rw [h.2]; rfl
      | ok u => rw [show l' = .locked from h]; rfl
    · rw [show l' = .closed none from h]; rfl
  | locked =>
    rcases hcan with rfl | rfl
    · obtain ⟨rows, -, rfl⟩ := h
      rfl
    · rw [show l' = .closed none from h]; rfl
  | seeding now todo missed inserted =>
    cases o with
    | select q =>
      cases q with
      | byId id =>
        rcases r with e | _ | row
        · rw [h.2]; rfl
        · rw [show l' = .seeding now todo true inserted from h]; rfl
        · rw [show l' = .seeding now todo.tail false inserted from h]; rfl
      | _ => exact hcan.elim
    | insertRow c =>
      cases r with
      | error e => rw [h.2]; rfl
      | ok u => rw [show l' = .seeding now todo.tail false (inserted ++ [c]) from h]; rfl
    | commit =>
      cases r with
      | error e => rw [h.2]; rfl
      | ok u => rw [show l' = .committed inserted.length from h]; rfl
    | close => rw [show l' = .closed none from h]; rfl
    | _ => exact hcan.elim
  | committed n => rw [show l' = .closed (some n) from h]; rfl
  | closed n => exact hcan.elim

/-- A seeder that nobody keeps waiting runs to its end, and leaves the lock free. -/
theorem seeder_ends (hO : (outline E uuid5 t₀).Sound (code uuid5)) (hP : (outline E uuid5 t₀).Holds P) {p : Code Result}
    (ht : P.threads i = some ⟨.seeder, p⟩) (hfree : Free i P.shared) :
    ∃ P', Pool.Steps (code uuid5) P P' ∧ (outline E uuid5 t₀).Holds P' ∧ (∀ j, j ≠ i → P'.threads j = P.threads j) ∧
      P'.shared.db.advisory lockKey = none ∧
      ((∃ n, P'.threads i = some ⟨.seeder, .ret (.inserted n)⟩) ∨ ∃ e, P'.threads i = some ⟨.seeder, .raise e⟩) := by
  obtain ⟨ls, hAt⟩ := hP
  obtain ⟨l, hl, hb, -⟩ := hAt.busy i _ ht
  obtain ⟨P', ls', l', hs, hj, hAt', hl', hG, hend⟩ := Outline.runs_out hO (G := fun w l => l.seeds = true ∧ Free i w) (i := i)
    (fun {w ls l} o hinv hl hg hcan => by
      have hen := seeder_enabled hinv hl hg.1 hg.2 hcan
      refine ⟨hen, fun l' hm => ⟨moves_seeds hg.1 hcan hm, free_of fun j hadv => ?_⟩⟩
      rcases World.exec_advisory hadv with hold | hnew
      · rcases hg.2 with hnone | hown
        · rw [hnone] at hold
          cases hold
        · rw [hown] at hold
          exact (Option.some.inj hold).symm
      · exact hnew.1) ht hAt hl ⟨hb, hfree⟩
  -- a seeder that has ended does not hold the lock
  have hnone : l'.holds = false → P'.shared.db.advisory lockKey = none := by
    intro hholds
    rcases hG.2 with hnone | hown
    · exact hnone
    · obtain ⟨l₁, hl₁, h₁⟩ := (hAt'.inv.lock i).mp hown
      obtain rfl : l' = l₁ := Option.some.inj (hl'.symm.trans hl₁)
      rw [hholds] at h₁
      cases h₁
  refine ⟨P', hs, ⟨ls', hAt'⟩, hj, ?_⟩
  rcases hend with ⟨a, ha⟩ | ⟨e, he⟩
  · obtain ⟨l₁, hl₁, hpost⟩ := hAt'.returned ha
    obtain rfl : l' = l₁ := Option.some.inj (hl'.symm.trans hl₁)
    cases a with
    | reply r => exact absurd rfl hpost
    | inserted n =>
      obtain rfl : l' = .closed (some n) := hpost
      exact ⟨hnone rfl, .inl ⟨n, ha⟩⟩
  · obtain ⟨l₁, hl₁, hpost⟩ := hAt'.raised he
    obtain rfl : l' = l₁ := Option.some.inj (hl'.symm.trans hl₁)
    obtain ⟨rfl, -⟩ := hpost rfl
    exact ⟨hnone rfl, .inr ⟨e, he⟩⟩

/-- These seeders have ended. -/
def EndedIn (is : List Nat) (P : Pool (machine E) Client Result) : Prop :=
  ∀ i ∈ is, ∀ p, P.threads i = some ⟨.seeder, p⟩ → (∃ n, p = .ret (.inserted n)) ∨ ∃ e, p = .raise e

/-- Of these threads, the seeders can be run to their ends, one after the other. -/
theorem all_end (hO : (outline E uuid5 t₀).Sound (code uuid5)) (is : List Nat) (hP : (outline E uuid5 t₀).Holds P)
    (hfree : P.shared.db.advisory lockKey = none) :
    ∃ P', Pool.Steps (code uuid5) P P' ∧ (outline E uuid5 t₀).Holds P' ∧ P'.shared.db.advisory lockKey = none ∧
      (∀ j, seeds P j = false → P'.threads j = P.threads j) ∧ (∀ j, seeds P' j = seeds P j) ∧ EndedIn is P' := by
  induction is with
  | nil => exact ⟨P, .refl, hP, hfree, fun _ _ => rfl, fun _ => rfl, fun i hi => absurd hi List.not_mem_nil⟩
  | cons i is ih =>
    obtain ⟨P₁, hs₁, hP₁, hfree₁, hkeep₁, hseeds₁, hend₁⟩ := ih
    by_cases hi : ∃ p, P₁.threads i = some ⟨.seeder, p⟩
    · obtain ⟨p, hp⟩ := hi
      obtain ⟨P₂, hs₂, hP₂, hkeep₂, hfree₂, hend₂⟩ := seeder_ends hO hP₁ hp (.inl hfree₁)
      have hi₁ : seeds P₁ i = true := by rw [seeds, hp]; rfl
      have hi₂ : seeds P₂ i = true := by
        rcases hend₂ with ⟨n, h⟩ | ⟨e, h⟩
        · rw [seeds, h]; rfl
        · rw [seeds, h]; rfl
      refine ⟨P₂, hs₁.trans hs₂, hP₂, hfree₂, fun j hj => ?_, fun j => ?_, fun j hj q hq => ?_⟩
      · have hne : j ≠ i := by
          intro e
          rw [e, ← hseeds₁, hi₁] at hj
          cases hj
        rw [hkeep₂ j hne, hkeep₁ j hj]
      · rw [← hseeds₁]
        by_cases e : j = i
        · rw [e, hi₂, hi₁]
        · rw [seeds, seeds, hkeep₂ j e]
      · by_cases e : j = i
        · subst e
          rcases hend₂ with ⟨n, h⟩ | ⟨e, h⟩
          · rw [h] at hq
            cases hq
            exact .inl ⟨n, rfl⟩
          · rw [h] at hq
            cases hq
            exact .inr ⟨e, rfl⟩
        · rw [hkeep₂ j e] at hq
          exact hend₁ j ((List.mem_cons.mp hj).resolve_left e) q hq
    · refine ⟨P₁, hs₁, hP₁, hfree₁, hkeep₁, hseeds₁, fun j hj q hq => ?_⟩
      rcases List.mem_cons.mp hj with rfl | hj
      · exact absurd ⟨q, hq⟩ hi
      · exact hend₁ j hj q hq

/-- Whatever the others are in the middle of, the seeders can all run to their ends. -/
theorem can_end (hO : (outline E uuid5 t₀).Sound (code uuid5)) {w₀ : World} (hs : Pool.Steps (code uuid5) (.fresh w₀) P)
    (hP : (outline E uuid5 t₀).Holds P) :
    ∃ P', Pool.Steps (code uuid5) P P' ∧ Ended P' ∧ ∀ j, seeds P j = false → P'.threads j = P.threads j := by
  obtain ⟨is, his⟩ := Pool.started_finite hs
  -- first the one that holds the lock, if any
  obtain ⟨P₁, hs₁, hP₁, hfree₁, hkeep₁, hseeds₁⟩ : ∃ P₁, Pool.Steps (code uuid5) P P₁ ∧ (outline E uuid5 t₀).Holds P₁ ∧
      P₁.shared.db.advisory lockKey = none ∧ (∀ j, seeds P j = false → P₁.threads j = P.threads j) ∧
        ∀ j, P₁.threads j ≠ none → P.threads j ≠ none := by
    rcases hadv : P.shared.db.advisory lockKey with _ | i
    · exact ⟨P, .refl, hP, hadv, fun _ _ => rfl, fun _ h => h⟩
    · obtain ⟨ls, hAt⟩ := hP
      obtain ⟨l, hl, hholds⟩ := (hAt.inv.lock i).mp hadv
      have hi : seeds P i = true := by
        rw [← seeders_eq hAt, seeders, hl]
        cases l with
        | locked => rfl
        | seeding now todo missed inserted => rfl
        | _ => cases hholds
      obtain ⟨⟨c, p⟩, ht, hc⟩ : ∃ t, P.threads i = some t ∧ t.call.seeds = true := by simpa [seeds, Option.any_eq_true] using hi
      cases c with
      | request app call => cases hc
      | seeder =>
        obtain ⟨P₁, hs₁, hP₁, hkeep, hfree, -⟩ := seeder_ends hO ⟨ls, hAt⟩ ht (.inr hadv)
        have hne : ∀ j, seeds P j = false → j ≠ i := by
          intro j hj e
          rw [e, hi] at hj
          cases hj
        refine ⟨P₁, hs₁, hP₁, hfree, fun j hj => hkeep j (hne j hj), fun j hj => ?_⟩
        by_cases e : j = i
        · rw [e, ht]
          exact Option.some_ne_none _
        · rwa [← hkeep j e]
  obtain ⟨P₂, hs₂, -, -, hkeep₂, hseeds₂, hend₂⟩ := all_end hO is hP₁ hfree₁
  refine ⟨P₂, hs₁.trans hs₂, fun i p hp => ?_, fun j hj => ?_⟩
  · refine hend₂ i (his i (hseeds₁ i fun hnone => ?_)) p hp
    have hi : seeds P₂ i = true := by rw [seeds, hp]; rfl
    rw [hseeds₂, seeds, hnone] at hi
    cases hi
  · have hj₁ : seeds P₁ j = false := by rw [seeds, hkeep₁ j hj, ← seeds, hj]
    rw [hkeep₂ j hj₁, hkeep₁ j hj]

end

/-- Any number of seeders, any creates and status changes before, between and during them:
    a seeder fails with the connection only, all seeders can end, and when they have, the
    database is seeded once. -/
theorem seeding_idempotent {E : Env} {uuid5 : Uuid → Str → Uuid} {t₀ : Table}
    (hinj : Set.InjOn (Seed.seedId uuid5) {text | text ∈ SEEDS.map (·.text)}) (hfresh : ∀ n, E.uuid n ∉ Seed.ids uuid5)
    {w₀ : World} (h₀ : w₀.db = Request.opened t₀) (hlog : w₀.log = []) {P : Pool (machine E) Client Result}
    (hs : Pool.Steps (code uuid5) (.fresh w₀) P) :
    (∀ i e, P.threads i = some ⟨.seeder, .raise e⟩ → Faulty E) ∧
      (Ended P → (∃ i n, P.threads i = some ⟨.seeder, .ret (.inserted n)⟩) → SeededOnce E uuid5 t₀ P) ∧
      ∃ P', Pool.Steps (code uuid5) P P' ∧ Ended P' ∧ ∀ j, seeds P j = false → P'.threads j = P.threads j := by
  have hO := sound (Seed.ids_nodup uuid5 hinj) hfresh t₀
  have hinit : Inv uuid5 t₀ w₀ fun _ => none := by
    refine ⟨?_, fun id _ => ?_, fun _ id hid => ?_, fun hne => ?_, fun i _ => ?_, ⟨fun k hk => ?_, fun e he => ?_⟩,
      fun i l hl => by (cases hl), fun i => ?_, fun id _ i hi => ?_⟩
    · rw [h₀]
      exact .refl t₀
    · rw [h₀]
      rfl
    · rw [h₀]
      exact (mem_absent.mp hid).2
    · rw [hlog] at hne
      exact absurd rfl hne
    · rw [h₀]
      rfl
    · rw [h₀] at hk
      cases hk
    · rw [hlog] at he
      cases he
    · rw [h₀]
      exact ⟨nofun, nofun⟩
    · rw [h₀] at hi
      cases hi
  have hP : (outline E uuid5 t₀).Holds P := Outline.keeps hO hs (Outline.fresh_holds hinit)
  obtain ⟨ls, hAt⟩ := hP
  refine ⟨fun i e he => ?_, seeded_once hAt, can_end hO hs ⟨ls, hAt⟩⟩
  obtain ⟨l, -, hpost⟩ := hAt.raised he
  exact (hpost rfl).2

/-! ## Two seeders -/

omit [Platform] in
section

/-- What `uuid.uuid5` gives for the seeds. -/
def seedIds : List Uuid :=
  [0x96413014c5f450628778e9648ce8b2da, 0xb6ddbc1d5ab45079a24fa14e2c1c0f23, 0x66e72a80bad055218ac0652002de85c6,
   0x7b5949d71a8c54b994adb48c41311127, 0xd6e6638496205c93b42cbc16daab8043, 0x34cc8a680a905a3bb15747a45d0f02ef,
   0x9aa3ad339248572cb704a5c1a5bd2520, 0xe255ca775657571cad706021bb4942c4, 0x7c078cd1cd8e5664a3af1de3d0935587,
   0x5f55f348a3c95c7bb445fbbb4ba67d9e, 0xf5b29bf4f0295831bc855dd1771ec083, 0xd5991915f4d558fda55406b9a892c8e9,
   0x6056c381e8ff5d079d19704192ad1065, 0x2483f2e680b256d9a3896d7b0f1cb1b1, 0xca08edaf763d55c486c96a86e2510a5a,
   0xdd29880cd22c55a79061083f1bfdce17, 0x74309d60063952fb8b5033487721a0d8, 0xd96d71a929c05892a8d5eda376ba5116,
   0x882af1f3d8d557fb8252de18b679f10e, 0x5ebecb907c005348b2bdf81b9c35c93a, 0x5c758cd5db685488a50a60ab020e1c02,
   0xfd38c88d992f508194dd981b95eeb008, 0xb22f14ae0a6a5ce3a54d7b2ad3f52ee1, 0xc509f3b4fa4f5de1a845139fbe915576,
   0x643405e8bcc1577ea606ad7637c5d26f, 0x29fb54b39a4b5fa0b651c32d6c711483, 0xf0b9a87eae1e5619b514cf62c61ff37f,
   0xa1587102b32a5dd5bea336684e70f35e, 0x2490e7ccf3455e018cc886aee8e531a8, 0x100cfeea950d5c2ba1ea2f5382b46448,
   0x9f815c533bc3553caf4e10570f384933, 0xa204b6a80a195b2ea408fda1b8d6e71b, 0x1e19067dc2aa5e48b64d17d7124522a1,
   0x9345d58fb7df5d908e3a1536b13c8cc3]

theorem texts_zip : ((SEEDS.map (·.text)).zip seedIds).map Prod.fst = SEEDS.map (·.text) := List.map_fst_zip (by decide +kernel)

def seedDict : Dict Str Uuid := ⟨(SEEDS.map (·.text)).zip seedIds, by rw [texts_zip]; exact Seed.texts_nodup⟩

def seedUuid (_ : Uuid) (text : Str) : Uuid := (seedDict.get text).getD 0

theorem seedUuid_mem {text : Str} (h : text ∈ SEEDS.map (·.text)) : (text, Seed.seedId seedUuid text) ∈ (SEEDS.map (·.text)).zip seedIds := by
  have hsome : (seedDict.get text).isSome = true := by
    rw [Dict.get, Option.isSome_map, List.find?_isSome]
    rw [← texts_zip] at h
    obtain ⟨e, he, rfl⟩ := List.mem_map.mp h
    exact ⟨e, he, by simp⟩
  obtain ⟨v, hv⟩ := Option.isSome_iff_exists.mp hsome
  have : Seed.seedId seedUuid text = v := by rw [Seed.seedId, seedUuid, hv]; rfl
  rw [this]
  exact Dict.mem_of_get hv

theorem zip_inj {a b : Str} {u v : Uuid} (ha : (a, u) ∈ (SEEDS.map (·.text)).zip seedIds)
    (hb : (b, v) ∈ (SEEDS.map (·.text)).zip seedIds) (h : u = v) : a = b := by
  have hnodup : (((SEEDS.map (·.text)).zip seedIds).map Prod.snd).Nodup := by
    rw [List.map_snd_zip (by decide +kernel)]
    decide +kernel
  exact congrArg Prod.fst (List.inj_on_of_nodup_map hnodup ha hb h)

/-- Two seeders begin at once on a table with a pothole. -/
theorem seeding_idempotent_twice : ∃ (E : Env) (P : Pool (@machine .ascii E) Client Result),
    Pool.Steps (@code .ascii seedUuid) (.fresh (World.initial Request.potholes)) P ∧
      (∀ i < 2, ∃ n, P.threads i = some ⟨.seeder, .ret (.inserted n)⟩) ∧ @SeededOnce .ascii E seedUuid Request.potholes P := by
  let E : Env := { Env.calm fun _ _ _ => .error .triageTimeout with uuid := fun _ => 0 }
  have hinj : Set.InjOn (Seed.seedId seedUuid) {text | text ∈ SEEDS.map (·.text)} := by
    intro a ha b hb hab
    exact zip_inj (seedUuid_mem ha) (seedUuid_mem hb) hab
  have hfresh : ∀ n, E.uuid n ∉ Seed.ids seedUuid := by
    intro n hn
    obtain ⟨s, hs, hid⟩ := List.mem_map.mp hn
    have hmem := (List.of_mem_zip (seedUuid_mem (List.mem_map_of_mem hs))).2
    rw [hid] at hmem
    exact absurd hmem (show 0 ∉ seedIds by decide +kernel)
  have hcalm : ¬ Faulty E := fun ⟨_, _, h⟩ => by cases h
  have hbegun := Pool.schedule_steps (M := @machine .ascii E) (@code .ascii seedUuid) [.start 0 .seeder, .start 1 .seeder]
    (.fresh (World.initial Request.potholes))
  obtain ⟨-, -, P, hs, hend, -⟩ := @seeding_idempotent .ascii E seedUuid Request.potholes hinj hfresh _ rfl rfl _ hbegun
  obtain ⟨hraise, hseeded, -⟩ := @seeding_idempotent .ascii E seedUuid Request.potholes hinj hfresh _ rfl rfl P (hbegun.trans hs)
  have hreturned : ∀ i < 2, ∃ n, P.threads i = some ⟨.seeder, .ret (.inserted n)⟩ := by
    intro i hi
    obtain ⟨p, hp⟩ : ∃ p, P.threads i = some ⟨.seeder, p⟩ := by
      rcases (by omega : i = 0 ∨ i = 1) with rfl | rfl
      · exact Pool.steps_started hs (t := ⟨.seeder, _⟩) rfl
      · exact Pool.steps_started hs (t := ⟨.seeder, _⟩) rfl
    rcases hend i p hp with ⟨n, rfl⟩ | ⟨e, rfl⟩
    · exact ⟨n, hp⟩
    · exact absurd (hraise i e hp) hcalm
  obtain ⟨n, hn⟩ := hreturned 0 (by omega)
  exact ⟨E, P, hbegun.trans hs, hreturned, hseeded hend ⟨0, n, hn⟩⟩

end

end CivicPulse.Seeding
