/-
  CivicPulse.Runs.Browsing — reading the list page by page while others write.

  A client asks for page 1, 2, 3, …, each in a request of its own, which sees the rows that
  are committed when its statement is executed. In between, complaints are submitted, with
  any times and ids, and statuses change.
  - `keys_grow`: under a filter that does not ask for a status, rows are only added.
  - `shown_or_after`: a complaint that was there at the start is on a page that was read, or
    after all of them, and then they are all full.
  - `browsing_complete`: when a page is short, the complaint is on one that was read.
-/

import CivicPulse.Lang.Paging
import CivicPulse.Runs.RequestRuns
import CivicPulse.Store.Frame

namespace CivicPulse.Browsing

open Text Lang
open Function (update)
open Request (RequestRun)

/-! ## Rows -/

/-- The rows a list shows a part of. -/
def kept (f : ComplaintFilters) (t : Table) : List Complaint := t.rows.filter f.keeps

theorem order_inj {c d : Complaint} (h : c.order = d.order) : c.id = d.id := congrArg (fun x => (ofLex x).2) h

/-- A row keeps its place and its category. -/
theorem later_kept {f : ComplaintFilters} (hf : f.status = none) {c c' : Complaint} (h : c.Later c') :
    c'.order = c.order ∧ f.keeps c' = f.keeps c := by
  rw [Complaint.Later] at h
  rw [h, ComplaintFilters.keeps, ComplaintFilters.keeps, hf]
  exact ⟨rfl, rfl⟩

theorem mem_kept {f : ComplaintFilters} (hf : f.status = none) {t t' : Table} (h : t.Grows t') {c : Complaint} (hc : c ∈ kept f t) :
    ∃ c' ∈ kept f t', c'.order = c.order := by
  obtain ⟨hrow, hkeeps⟩ := List.mem_filter.mp hc
  obtain ⟨c', hc', hl⟩ := h c hrow
  obtain ⟨horder, hk⟩ := later_kept hf hl
  exact ⟨c', List.mem_filter.mpr ⟨hc', hk.trans hkeeps⟩, horder⟩

/-- Rows are only added. -/
theorem keys_grow {f : ComplaintFilters} (hf : f.status = none) {t t' : Table} (h : t.Grows t') :
    (kept f t).map Complaint.order ⊆ (kept f t').map Complaint.order := by
  intro k hk
  obtain ⟨c, hc, rfl⟩ := List.mem_map.mp hk
  obtain ⟨c', hc', horder⟩ := mem_kept hf h hc
  exact List.mem_map.mpr ⟨c', hc', horder⟩

/-! ## One request -/

/-- A request for a list, and the rows it was shown a page of; or any other request. -/
inductive Loc where
  | other
  | asked (found : Option Table)

def Performs : Loc → Op → Prop
  | .other, _ => True
  | .asked _, o => (∃ q, o = .select q) ∨ o = .rollback ∨ o = .close

def Moves (l : Loc) (o : Op) (r : o.Ans) (l' : Loc) : Prop :=
  match l with
  | .other => l' = .other
  | .asked found => match o, r with
    | .select (.page f offset limit), .ok rows => ∃ t, l' = .asked (some t) ∧ rows = (Query.page f offset limit).eval t
    | _, _ => l' = .asked found

def protocol : Protocol sig Loc := ⟨Performs, Moves⟩

/-- A page is one of the rows that were found. -/
def Post (c : App × Call) (l : Loc) : Except Exc Reply → Prop
  | .ok (.page items _) => ∀ f p s, c.2 = .list f p s → ∃ t, l = .asked (some t) ∧ items = (Query.page f ((p - 1) * s) s).eval t
  | _ => True

section

variable {α : Type}

theorem follows_other {Q : Loc → Except Exc α → Prop} (hQ : ∀ r, Q .other r) (p : Code α) : Follows protocol Q .other p := by
  induction p with
  | ret a => exact hQ _
  | raise e => exact hQ _
  | op o k ih =>
    refine ⟨trivial, fun r l' hs => ?_⟩
    obtain rfl : l' = .other := hs
    exact ih r

theorem follows_list {Q : Loc → Except Exc (List Complaint × Int) → Prop} (f : ComplaintFilters) (p s : Int)
    (herr : ∀ e, Q (.asked none) (.error e))
    (hok : ∀ t total, Q (.asked (some t)) (.ok ((Query.page f ((p - 1) * s) s).eval t, total))) :
    Follows protocol Q (.asked none) (ComplaintService.list f p s) := by
  refine ⟨.inl ⟨_, rfl⟩, fun r l' hs => ?_⟩
  obtain rfl : l' = .asked none := hs
  cases r with
  | error e => exact herr e
  | ok total =>
    refine ⟨.inl ⟨_, rfl⟩, fun r l' hs => ?_⟩
    cases r with
    | error e =>
      obtain rfl : l' = .asked none := hs
      exact herr e
    | ok rows =>
      obtain ⟨t, rfl, rfl⟩ := hs
      exact hok t total

/-- The session's end. -/
theorem follows_repository {Q : Loc → Except Exc α → Prop} {found : Option Table} {body : Code α}
    (h : Follows protocol (fun l r => (∃ found, l = .asked found) ∧ Q l r) (.asked found) body) :
    Follows protocol Q (.asked found) (repository body) := by
  refine Follows.bind (Follows.tryCatch (Follows.tryCatch (Follows.mono ?_ h)))
  intro l r hr
  obtain ⟨⟨found, rfl⟩, hr⟩ := hr
  cases r with
  | ok a =>
    refine ⟨.inr (.inr rfl), fun _ l' hl => ?_⟩
    obtain rfl : l' = .asked found := hl
    exact hr
  | error e =>
    refine ⟨.inr (.inl rfl), fun _ l' hl => ⟨?_, fun _ l'' hl' => ?_⟩⟩
    · obtain rfl : l' = .asked found := hl
      exact .inr (.inr rfl)
    · obtain rfl : l' = .asked found := hl
      obtain rfl : l'' = .asked found := hl'
      exact hr

end

def begun (c : App × Call) : Loc :=
  match c.2 with
  | .list _ _ _ => .asked none
  | _ => .other

variable [Platform]

theorem serve_follows (c : App × Call) : Follows protocol (Post c) (begun c) (serve c) := by
  obtain ⟨app, call⟩ := c
  cases call with
  | list f p s =>
    refine follows_repository (Follows.bind (follows_list f p s (fun e => ⟨⟨_, rfl⟩, trivial⟩) fun t total => ⟨⟨_, rfl⟩, ?_⟩))
    intro f' p' s' hcall
    cases hcall
    exact ⟨t, rfl, rfl⟩
  | _ =>
    refine follows_other (fun r => ?_) _
    rcases r with _ | ⟨_⟩ | ⟨_⟩ | ⟨_⟩
    · trivial
    · trivial
    · trivial
    · exact fun _ _ _ h => by cases h

/-! ## Any interleaving -/

/-- Since the rows were `t₀`; the requests of `S` had begun. -/
structure Inv (t₀ : Table) (S : Nat → Prop) (w : World) (ls : Nat → Option Loc) : Prop where
  grows : t₀.Grows w.db.table
  idle : ∀ i, ls i ≠ some .other → w.db.pending i = []
  found : ∀ i t, ls i = some (.asked (some t)) → t.Grows w.db.table ∧ (¬ S i → t₀.Grows t)

variable {E : Env} {t₀ : Table} {S : Nat → Prop} {w : World} {ls : Nat → Option Loc} {i : Nat} {l : Loc}

omit [Platform] in
theorem inv_start (h : Inv t₀ S w ls) (hi : ls i = none) (c : App × Call) : Inv t₀ S w (update ls i (some (begun c))) := by
  refine ⟨h.grows, fun j hj => ?_, fun j t hj => ?_⟩
  · by_cases e : j = i
    · subst e
      exact h.idle j (by rw [hi]; nofun)
    · exact h.idle j (by rwa [Function.update_of_ne e] at hj)
  · by_cases e : j = i
    · subst e
      rw [Function.update_self, begun] at hj
      split at hj
      · cases hj
      · cases hj
    · exact h.found j t (by rwa [Function.update_of_ne e] at hj)

/-- A reader's operation leaves its session without writes, and finds the committed rows. -/
theorem exec_asked {found : Option Table} {o : Op} (hcan : Performs (.asked found) o) (hidle : w.db.pending i = []) :
    (World.exec E i o w).2.db.pending i = [] ∧
      ∃ found', Moves (.asked found) o (World.exec E i o w).1 (.asked found') ∧
        (found' = found ∨ found' = some w.db.table) := by
  have hfinish : (w.db.finish i).pending i = [] := Function.update_self ..
  rcases hcan with ⟨q, rfl⟩ | rfl | rfl
  · obtain ⟨hdb, hans⟩ := World.select_cases (E := E) (i := i) (w := w) q
    refine ⟨by rw [hdb]; exact hidle, ?_⟩
    rcases hans with ⟨e, hans⟩ | ⟨-, hans⟩
    · refine ⟨found, ?_, .inl rfl⟩
      rw [hans]
      cases q <;> rfl
    · rw [hans, show w.db.view i = w.db.table from by rw [Db.view, hidle]; rfl]
      cases q with
      | page f offset limit => exact ⟨some w.db.table, ⟨_, rfl, rfl⟩, .inr rfl⟩
      | _ => exact ⟨found, rfl, .inl rfl⟩
  · exact ⟨hfinish, found, rfl, .inl rfl⟩
  · exact ⟨hfinish, found, rfl, .inl rfl⟩

theorem inv_exec (h : Inv t₀ S w ls) (hl : ls i = some l) {o : Op} (hcan : Performs l o) :
    ∃ l', Moves l o (World.exec E i o w).1 l' ∧ Inv t₀ S (World.exec E i o w).2 (update ls i (some l')) := by
  have hgrows : w.db.table.Grows (World.exec E i o w).2.db.table := World.exec_grows o
  -- the others are where they were
  have step : ∀ l', (l' ≠ .other → (World.exec E i o w).2.db.pending i = []) →
      (∀ t, l' = .asked (some t) → t = w.db.table ∨ l = .asked (some t)) → Inv t₀ S (World.exec E i o w).2 (update ls i (some l')) := by
    intro l' hidle hfound
    refine ⟨h.grows.trans hgrows, fun j hj => ?_, fun j t hj => ?_⟩
    · by_cases e : j = i
      · subst e
        rw [Function.update_self] at hj
        exact hidle fun hl' => hj (by rw [hl'])
      · rw [Function.update_of_ne e] at hj
        rw [World.exec_pending e]
        exact h.idle j hj
    · by_cases e : j = i
      · subst e
        rw [Function.update_self] at hj
        rcases hfound t (Option.some.inj hj) with rfl | hl'
        · exact ⟨hgrows, fun _ => h.grows⟩
        · obtain ⟨hg, hS⟩ := h.found j t (by rw [hl, hl'])
          exact ⟨hg.trans hgrows, hS⟩
      · rw [Function.update_of_ne e] at hj
        obtain ⟨hg, hS⟩ := h.found j t hj
        exact ⟨hg.trans hgrows, hS⟩
  cases l with
  | other => exact ⟨.other, rfl, step _ (fun hne => absurd rfl hne) nofun⟩
  | asked found =>
    obtain ⟨hpending, found', hmoves, hcases⟩ := exec_asked (E := E) hcan (h.idle i (by rw [hl]; nofun))
    refine ⟨.asked found', hmoves, step _ (fun _ => hpending) fun t ht => ?_⟩
    cases ht
    rcases hcases with rfl | hcases
    · exact .inr rfl
    · exact .inl (Option.some.inj hcases)

def outline (E : Env) (t₀ : Table) (S : Nat → Prop) : Outline (machine E) (App × Call) Reply Loc where
  toProtocol := protocol
  post := Post
  inv := Inv t₀ S

theorem sound (E : Env) (t₀ : Table) (S : Nat → Prop) : (outline E t₀ S).Sound serve where
  start := by
    intro w ls i c h hi
    exact ⟨begun c, inv_start h hi c, trivial, serve_follows c⟩
  exec := by
    intro w ls i l o h hl hcan _
    obtain ⟨l', hm, hinv⟩ := inv_exec h hl hcan
    exact ⟨l', hm, hinv, fun _ _ => trivial⟩

/-- From here on. -/
theorem restart {P : Pool (machine E) (App × Call) Reply} (h : (outline E t₀ S).Holds P) :
    (outline E P.shared.db.table fun i => P.threads i ≠ none).Holds P := by
  obtain ⟨ls, hinv, hidle, hbusy⟩ := h
  refine ⟨ls, ⟨.refl _, hinv.idle, fun i t hi => ⟨(hinv.found i t hi).1, fun hn => ?_⟩⟩, hidle, hbusy⟩
  rw [hidle i (by simpa using hn)] at hi
  cases hi

/-! ## Page after page -/

/-- A client that reads the pages of the list from the first on, `s` complaints each, from `P₀` on:
    each in a request of its own on some replica, begun when the one before had returned. -/
inductive PagesRead (E : Env) (f : ComplaintFilters) (s : Int) (P₀ : Pool (machine E) (App × Call) Reply) :
    List (List Complaint) → Pool (machine E) (App × Call) Reply → Prop
  | start : PagesRead E f s P₀ [] P₀
  | page {pages : List (List Complaint)} {P P' : Pool (machine E) (App × Call) Reply} (app : App) (i : Nat)
      (items : List Complaint) (total : Int) :
      PagesRead E f s P₀ pages P → Pool.Steps serve P P' → P.threads i = none →
      P'.threads i = some ⟨(app, .list f (pages.length + 1) s), .ret (.page items total)⟩ →
      PagesRead E f s P₀ (pages ++ [items]) P'

variable {P₀ P : Pool (machine E) (App × Call) Reply} {f : ComplaintFilters} {s : Int} {pages : List (List Complaint)}

/-- A page that was read is one of rows that were committed while it was. -/
theorem page_read {P' : Pool (machine E) (App × Call) Reply} (h : (outline E t₀ S).Holds P) (hs : Pool.Steps serve P P') {i : Nat}
    (hi : P.threads i = none) {app : App} {p : Int} {items : List Complaint} {total : Int}
    (ht : P'.threads i = some ⟨(app, .list f p s), .ret (.page items total)⟩) :
    ∃ t, P.shared.db.table.Grows t ∧ t.Grows P'.shared.db.table ∧ items = (Query.page f ((p - 1) * s) s).eval t := by
  obtain ⟨ls, hat⟩ := Outline.keeps (sound E _ _) hs (restart h)
  obtain ⟨l, hl, hpost⟩ := hat.returned ht
  obtain ⟨t, rfl, hitems⟩ := hpost f p s rfl
  obtain ⟨hgrows, hbegun⟩ := hat.inv.found i t hl
  exact ⟨t, hbegun (by simpa using hi), hgrows, hitems⟩

omit [Platform] in
theorem eval_page (hs : 0 < s) (n : Nat) (t : Table) :
    (Query.page f (((n : Int) + 1 - 1) * s) s).eval t = Lang.page Complaint.order (n * s.toNat) s.toNat (kept f t) := by
  have hoffset : (((n : Int) + 1 - 1) * s).toNat = n * s.toNat := by
    obtain ⟨m, rfl⟩ := Int.eq_ofNat_of_zero_le hs.le
    rw [Int.add_sub_cancel, Int.toNat_natCast, ← Int.natCast_mul, Int.toNat_natCast]
  rw [Query.eval, hoffset]
  rfl

/-- The complaint has been shown. -/
def Shown (c : Complaint) (pages : List (List Complaint)) : Prop := ∃ items ∈ pages, ∃ d ∈ items, d.id = c.id

/-- A complaint that was there at the start has been shown, or comes after all pages, which
    are full. -/
theorem shown_or_after (hs : 0 < s) (hf : f.status = none) (h₀ : (outline E t₀ S).Holds P₀) (h : PagesRead E f s P₀ pages P)
    {c : Complaint} (hc : c ∈ kept f P₀.shared.db.table) :
    (outline E t₀ S).Holds P ∧ (Shown c pages ∨ (∀ items ∈ pages, (items.length : Int) = s) ∧
      ∃ t, P₀.shared.db.table.Grows t ∧ t.Grows P.shared.db.table ∧
        pages.length * s.toNat ≤ rank Complaint.order (kept f t) c.order) := by
  induction h with
  | start => exact ⟨h₀, .inr ⟨nofun, _, .refl _, .refl _, by simp⟩⟩
  | @page pages P P' app i items total h hsteps hi ht ih =>
    obtain ⟨hP, ih⟩ := ih
    refine ⟨Outline.keeps (sound E _ _) hsteps hP, ?_⟩
    rcases ih with ⟨items', hitems', hshown⟩ | ⟨hfull, t, hg₀, hg, hrank⟩
    · exact .inl ⟨items', List.mem_append_left _ hitems', hshown⟩
    obtain ⟨t', hg', hgP', hitems⟩ := page_read hP hsteps hi ht
    rw [eval_page hs] at hitems
    -- the complaint as it is among these rows, and not before the page
    have hgrows := hg.trans hg'
    obtain ⟨c', hc', horder⟩ := mem_kept hf (hg₀.trans hgrows) hc
    have hrank' : pages.length * s.toNat ≤ rank Complaint.order (kept f t') c'.order := by
      rw [horder]
      exact hrank.trans (rank_mono (t.order_nodup f) (keys_grow hf hgrows) _)
    have hnodup : ((kept f t').map Complaint.order).Nodup := t'.order_nodup f
    rcases page_or_after hnodup hc' hrank' with hon | hafter
    · exact .inl ⟨items, List.mem_append_right _ (List.mem_singleton_self _), c', hitems ▸ hon, order_inj horder⟩
    · refine .inr ⟨fun items' hitems' => ?_, t', hg₀.trans hgrows, hgP', ?_⟩
      · rcases List.mem_append.mp hitems' with hold | hnew
        · exact hfull items' hold
        · rw [List.mem_singleton.mp hnew, hitems, page_full hnodup hc' hafter, Int.toNat_of_nonneg hs.le]
      · rw [List.length_append, List.length_singleton, ← horder]
        exact hafter

/-- Whatever is submitted and changed while the pages are read, one by one until one is
    short: every complaint that the filter kept before the first of them is on one. -/
theorem browsing_complete {w₀ : World} (h₀ : ∀ i, w₀.db.pending i = []) (hP₀ : RequestRun E w₀ P₀) (hs : 1 ≤ s) (hf : f.status = none)
    {last : List Complaint} (h : PagesRead E f s P₀ (pages ++ [last]) P) (hlast : (last.length : Int) < s) (c : Complaint)
    (hc : c ∈ P₀.shared.db.table.rows) (hkeeps : f.keeps c = true) : Shown c (pages ++ [last]) := by
  have hfresh : (outline E w₀.db.table fun _ => True).Holds (Pool.fresh w₀) :=
    Outline.fresh_holds ⟨.refl _, fun i _ => h₀ i, fun _ _ h => by cases h⟩
  have hstart := Outline.keeps (sound E _ _) hP₀ hfresh
  obtain ⟨-, hshown | ⟨hfull, -⟩⟩ := shown_or_after (by omega) hf hstart h (List.mem_filter.mpr ⟨hc, hkeeps⟩)
  · exact hshown
  · have := hfull last (by simp)
    omega

/-! ## Two potholes, and a third -/

omit [Platform] in
section

open Request (replica potholes pothole leak)

/-- Every complaint. -/
def all : ComplaintFilters := ⟨none, none, none⟩

/-- A later one. -/
def crack : Complaint := { pothole with id := 8, createdAt := 1 }

def streets : Table := ⟨[pothole, crack], by decide⟩

/-- What is submitted is later still. -/
def later : Env := { Env.calm (fun _ _ _ => .error .triageTimeout) with utc := fun _ _ => 2 }

/-- Thread `i` reads a page of one complaint. -/
def readPage (i : Nat) (n : Int) (P : Pool (@machine .ascii later) (App × Call) Reply) : Pool (@machine .ascii later) (App × Call) Reply :=
  Pool.schedule (@serve .ascii) (.start i (replica, .list all n 1) :: List.replicate 3 (.exec i)) P

def firstPage : Pool (@machine .ascii later) (App × Call) Reply := readPage 0 1 (.fresh (.initial streets))

/-- A complaint is submitted, which comes before the others, and the second page is read. -/
def secondPage : Pool (@machine .ascii later) (App × Call) Reply :=
  readPage 2 2 (Pool.schedule (@serve .ascii) (.start 1 (replica, .create leak) :: List.replicate 16 (.exec 1)) firstPage)

/-- The pothole is taken up, and the third page is read. -/
def thirdPage : Pool (@machine .ascii later) (App × Call) Reply :=
  readPage 4 3 (Pool.schedule (@serve .ascii) (.start 3 (replica, .changeStatus 7 .inProgress) :: List.replicate 8 (.exec 3)) secondPage)

def fourthPage : Pool (@machine .ascii later) (App × Call) Reply := readPage 5 4 thirdPage

/-- The page that a thread has read, and what is on it. -/
def pageOf (P : Pool (@machine .ascii later) (App × Call) Reply) (i : Nat) : Option ((App × ComplaintFilters × Int × Int) × List Complaint × Int) :=
  match P.threads i with
  | some ⟨(app, .list f n s), .ret (.page items total)⟩ => some ((app, f, n, s), items, total)
  | _ => none

theorem threads_of_pageOf {P : Pool (@machine .ascii later) (App × Call) Reply} {i : Nat} {app : App} {f : ComplaintFilters} {n s total : Int}
    {items : List Complaint} (h : pageOf P i = some ((app, f, n, s), items, total)) :
    P.threads i = some ⟨(app, .list f n s), .ret (.page items total)⟩ := by
  unfold pageOf at h
  split at h
  · cases h
    assumption
  · cases h

/-- The pothole as it was taken up. -/
def takenUp : Complaint := { pothole with status := .inProgress, updatedAt := 2 }

/-- What was submitted has shifted the pages: the crack is on two of them, and the pothole is
    on the third. -/
theorem browsing_complete_shifted : Shown pothole [[crack], [crack], [takenUp], []] := by
  have h₁ : pageOf firstPage 0 = some ((replica, all, 1, 1), [crack], 2) := by decide +kernel
  have h₂ : pageOf secondPage 2 = some ((replica, all, 2, 1), [crack], 3) := by decide +kernel
  have h₃ : pageOf thirdPage 4 = some ((replica, all, 3, 1), [takenUp], 3) := by decide +kernel
  have h₄ : pageOf fourthPage 5 = some ((replica, all, 4, 1), [], 3) := by decide +kernel
  obtain ⟨hnone₂, hnone₄, hnone₅⟩ : (firstPage.threads 2).isNone = true ∧ (secondPage.threads 4).isNone = true ∧
      (thirdPage.threads 5).isNone = true := by decide +kernel
  have hread₁ : @PagesRead .ascii later all 1 (.fresh (.initial streets)) [[crack]] firstPage :=
    @PagesRead.page .ascii _ _ _ _ [] _ _ replica 0 [crack] 2 (@PagesRead.start .ascii _ _ _ _) (Pool.schedule_steps _ _ _) rfl
      (threads_of_pageOf h₁)
  have hread₂ : @PagesRead .ascii later all 1 (.fresh (.initial streets)) [[crack], [crack]] secondPage :=
    @PagesRead.page .ascii _ _ _ _ [[crack]] _ _ replica 2 [crack] 3 hread₁
      ((Pool.schedule_steps _ _ _).trans (Pool.schedule_steps _ _ _)) (Option.isNone_iff_eq_none.mp hnone₂) (threads_of_pageOf h₂)
  have hread₃ : @PagesRead .ascii later all 1 (.fresh (.initial streets)) [[crack], [crack], [takenUp]] thirdPage :=
    @PagesRead.page .ascii _ _ _ _ [[crack], [crack]] _ _ replica 4 [takenUp] 3 hread₂
      ((Pool.schedule_steps _ _ _).trans (Pool.schedule_steps _ _ _)) (Option.isNone_iff_eq_none.mp hnone₄) (threads_of_pageOf h₃)
  have hread₄ : @PagesRead .ascii later all 1 (.fresh (.initial streets)) ([[crack], [crack], [takenUp]] ++ [[]]) fourthPage :=
    @PagesRead.page .ascii _ _ _ _ [[crack], [crack], [takenUp]] _ _ replica 5 [] 3 hread₃ (Pool.schedule_steps _ _ _)
      (Option.isNone_iff_eq_none.mp hnone₅) (threads_of_pageOf h₄)
  exact @browsing_complete .ascii _ _ _ _ _ _ (.initial streets) (fun _ => rfl) .refl (by decide) rfl _ hread₄ (by decide) pothole
    List.mem_cons_self (by decide)

end

end CivicPulse.Browsing
