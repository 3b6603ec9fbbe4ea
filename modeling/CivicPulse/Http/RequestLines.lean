/-
  CivicPulse.Http.RequestLines — the lines of a request, among all that are on stdout.

  Any applications behind the middleware, interleaving: whoever reads an id in a response's
  `x-request-id` header can cut stdout into lines and select those with that `request_id`.
  - `Place.owned`: what a thread writes carries the one id that it was given.
  - `Place.tidy`: if the applications' records can be read back, the access records can.
  - `lines_of_request`: what is selected is what the requests of that id have written.
-/

import CivicPulse.Http.Middleware

namespace CivicPulse

open Text Lang

namespace Asgi

section

variable [Platform] {σ : Type}

/-- The line that is written. -/
def Effect.line : Effect → Option Str
  | wrote r created id => some (r.format created id)
  | _ => none

/-- The process's output so far. -/
def Process.stdout (w : Process σ) : Str := stream (w.effects.filterMap fun e => e.2.line)

/-- What the threads that `f` names have written, in the order of the output. -/
def Process.written (w : Process σ) (f : Nat → Bool) : List Str := w.effects.filterMap fun e => if f e.1 then e.2.line else none

theorem lines_stdout (w : Process σ) : lines w.stdout = w.effects.filterMap fun e => e.2.line := by
  refine lines_stream fun l hl => ?_
  obtain ⟨e, -, he⟩ := List.mem_filterMap.mp hl
  cases h : e.2 with
  | wrote r created id =>
    rw [h] at he
    cases he
    exact Json.newline_not_mem_dumps _
  | _ =>
    rw [h] at he
    cases he

end

def Effect.names (id : Str) : Effect → Bool
  | named id' => id' == id
  | _ => false

/-- The request of thread `i` was given that id. -/
def Process.gave {σ : Type} (w : Process σ) (id : Str) (i : Nat) : Bool := (w.effectsOf i).any (Effect.names id)

/-! ## Under which id a thread writes -/

theorem hex_ne_unnamed (u : Uuid) : hex u ≠ unnamed := by
  intro h
  have hlen := congrArg List.length h
  rw [hex, List.length_map, List.length_reverse, List.length_range] at hlen
  cases hlen

theorem Given.ne_unnamed {scope : Scope} {id : Str} (h : Given scope id) : id ≠ unnamed := by
  unfold Given at h
  split at h
  · rename_i hsafe
    rintro rfl
    rw [← h] at hsafe
    exact absurd hsafe (by decide)
  · obtain ⟨u, rfl⟩ := h
    exact hex_ne_unnamed u

/-- The thread is given no other id, and writes under this one. -/
def Marked (id : Str) : Effect → Prop
  | .named _ => False
  | .wrote _ _ context => context = id
  | _ => True

theorem Under.marked {id : Str} {e : Effect} (h : Under id e) : Marked id e := by
  cases e with
  | wrote r created context => exact h
  | sent m => trivial
  | named id' => exact h
  | measured method path status elapsed => trivial

theorem marked_accounted {scope : Scope} {id : Str} {own left : List Effect} (h : Accounted scope id own left) :
    ∀ e ∈ left, Marked id e := by
  obtain ⟨elapsed, created, rfl⟩ := h
  refine List.forall_mem_cons.mpr ⟨trivial, fun e he => ?_⟩
  split at he
  · cases he
  · rw [List.mem_singleton.mp he]
    rfl

section

variable {S : Sig} {scope : Scope} {es bs : List Effect} {context : Str} {q : Wrapped S} {p : Application S}

/-- What a thread is named and what it sends and writes under. -/
def Owned (scope : Scope) (es : List Effect) : Prop :=
  (∀ e ∈ es, Marked unnamed e) ∧ (scope.http = true → es = []) ∨
  ∃ id rest, Given scope id ∧ es = .named id :: rest ∧ (∀ e ∈ rest, Marked id e) ∧
    ∀ m, .sent m ∈ rest → ∃ own : Message, m = own.stamp id

theorem Served.owned {id : Str} (h : Served scope id bs es) (left : List Effect) (hleft : ∀ e ∈ left, Marked id e)
    (hsent : ∀ m, .sent m ∉ left) : Owned scope (.named id :: (es ++ left)) := by
  have hunder := under_echo h.echo
  refine .inr ⟨id, _, h.given, rfl, fun e he => ?_, fun m hm => ?_⟩
  · rcases List.mem_append.mp he with he | he
    · exact (hunder e he).marked
    · exact hleft e he
  · rcases List.mem_append.mp hm with hm | hm
    · exact hunder _ hm
    · exact absurd hm (hsent m)

theorem sent_accounted {id : Str} {own left : List Effect} (h : Accounted scope id own left) (m : Message) : .sent m ∉ left := by
  obtain ⟨elapsed, created, rfl⟩ := h
  intro hm
  split at hm <;> simp at hm

theorem Place.owned (h : Place scope (es, context) bs q p) : Owned scope es := by
  have hnone : ∀ {id : Str}, ∀ e ∈ ([] : List Effect), Marked id e := fun e he => by cases he
  have hsilent : ∀ m, Effect.sent m ∉ ([] : List Effect) := fun m hm => by cases hm
  cases h with
  | plain hhttp hes =>
    refine .inl ⟨forall_of_forall₂ (f := fun _ => True) (fun hx _ => ?_) hes fun _ _ => trivial, fun h => by rw [hhttp] at h; cases h⟩
    cases hx with
    | sent m => trivial
    | wrote r t t' id => rfl
  | arrived => exact .inl ⟨hnone, fun _ => rfl⟩
  | identified => exact .inl ⟨hnone, fun _ => rfl⟩
  | named h => exact h.owned [] hnone hsilent
  | serving h =>
    have howned := h.owned [] hnone hsilent
    rwa [List.append_nil] at howned
  | measuring h =>
    have howned := h.owned [] hnone hsilent
    rwa [List.append_nil] at howned
  | logging h =>
    refine h.owned _ (fun e he => ?_) fun m hm => ?_
    · rw [List.mem_singleton.mp he]
      trivial
    · cases List.mem_singleton.mp hm
  | leaving h hacc => exact h.owned _ (marked_accounted hacc) (sent_accounted hacc)
  | ended h hacc => exact h.owned _ (marked_accounted hacc) (sent_accounted hacc)

/-! ## What can be read back -/

/-- A status that can be written and read. -/
def Short (status : Nat) : Prop := (natText status).length ≤ 4300

/-- What an application does that can be read back from the output. -/
def Tidy (limit : Nat) : AppOp S → Prop
  | .log r => r.Readable limit
  | .send m => Short (m.status 500)
  | .inner _ => True

def Effect.Tidy (limit : Nat) : Effect → Prop
  | wrote r _ _ => r.Readable limit
  | sent m => Short (m.status 500)
  | _ => True

theorem short_statusOf {limit : Nat} {es : List Effect} (h : ∀ e ∈ es, e.Tidy limit) : Short (statusOf es) := by
  have key : ∀ (es : List Effect) (status : Nat), Short status → (∀ e ∈ es, e.Tidy limit) → Short (es.foldl Effect.status status) := by
    intro es
    induction es with
    | nil => exact fun status hs _ => hs
    | cons e es ih =>
      intro status hs hes
      refine ih _ ?_ fun e he => hes e (List.mem_cons_of_mem _ he)
      have he := hes e List.mem_cons_self
      cases e with
      | sent m =>
        cases m with
        | start status' headers => exact he
        | other kind => exact hs
      | _ => exact hs
  exact key es 500 (by unfold Short; decide) h

theorem readable_accessRecord {limit : Nat} (h0 : 0 < limit) {scope : Scope} {status : Nat} (h : Short status) (elapsed : ℚ) :
    (accessRecord scope status elapsed).Readable limit := by
  intro e he
  have he := Dict.mem_ofList he
  simp only [List.mem_cons, List.not_mem_nil, or_false] at he
  rcases he with rfl | rfl | rfl | rfl
  · exact ⟨(by decide : "method".toList ≠ "request_id".toList), Json.codes_scalar _, h0⟩
  · exact ⟨(by decide : "path".toList ≠ "request_id".toList), Json.codes_scalar _, h0⟩
  · exact ⟨(by decide : "status".toList ≠ "request_id".toList), decide_eq_true h, h0⟩
  · exact ⟨(by decide : "duration_ms".toList ≠ "request_id".toList), rfl, h0⟩

theorem tidy_echo {limit : Nat} {id : Str} (h : List.Forall₂ (Echo id) bs es) (hbs : ∀ e ∈ bs, e.Tidy limit) :
    ∀ e ∈ es, e.Tidy limit := by
  refine forall_of_forall₂ (fun hx hb => ?_) h hbs
  cases hx with
  | sent m => cases m <;> exact hb
  | wrote r t t' id' => exact hb

theorem tidy_same {limit : Nat} (h : List.Forall₂ Same bs es) (hbs : ∀ e ∈ bs, e.Tidy limit) : ∀ e ∈ es, e.Tidy limit := by
  refine forall_of_forall₂ (fun hx hb => ?_) h hbs
  cases hx with
  | sent m => exact hb
  | wrote r t t' id' => exact hb

theorem tidy_accounted {limit : Nat} (h0 : 0 < limit) {id : Str} {own left : List Effect} (hown : ∀ e ∈ own, e.Tidy limit)
    (h : Accounted scope id own left) : ∀ e ∈ left, e.Tidy limit := by
  obtain ⟨elapsed, created, rfl⟩ := h
  refine List.forall_mem_cons.mpr ⟨trivial, fun e he => ?_⟩
  split at he
  · cases he
  · rw [List.mem_singleton.mp he]
    exact readable_accessRecord h0 (short_statusOf hown) elapsed

theorem Place.tidy {limit : Nat} (h0 : 0 < limit) (h : Place scope (es, context) bs q p) (hbs : ∀ e ∈ bs, e.Tidy limit) :
    ∀ e ∈ es, e.Tidy limit := by
  have hframe : ∀ {id : Str} {own left : List Effect}, (∀ e ∈ own, e.Tidy limit) → (∀ e ∈ left, e.Tidy limit) →
      ∀ e ∈ Effect.named id :: (own ++ left), e.Tidy limit := by
    intro id own left hown hleft
    refine List.forall_mem_cons.mpr ⟨trivial, fun e he => ?_⟩
    exact (List.mem_append.mp he).elim (hown e) (hleft e)
  cases h with
  | plain _ hes => exact tidy_same hes hbs
  | arrived => exact hbs
  | identified => exact hbs
  | named => exact List.forall_mem_cons.mpr ⟨trivial, hbs⟩
  | serving h => exact List.forall_mem_cons.mpr ⟨trivial, tidy_echo h.echo hbs⟩
  | measuring h => exact List.forall_mem_cons.mpr ⟨trivial, tidy_echo h.echo hbs⟩
  | logging h =>
    refine hframe (tidy_echo h.echo hbs) fun e he => ?_
    rw [List.mem_singleton.mp he]
    trivial
  | leaving h hacc => exact hframe (tidy_echo h.echo hbs) (tidy_accounted h0 (tidy_echo h.echo hbs) hacc)
  | ended h hacc => exact hframe (tidy_echo h.echo hbs) (tidy_accounted h0 (tidy_echo h.echo hbs) hacc)

/-! ## Runs -/

variable {M : Machine S} {H : Host S} {C : Type} {V : Server S C} {s : M.State}

/-- Tidy applications do what can be read back. -/
theorem tidy_bare {limit : Nat} (happ : ∀ c, (V.app c).Uses (Tidy limit)) {B : Pool (bare M H) C Unit}
    (hB : Pool.Steps V.app (.fresh (Process.initial s)) B) : ∀ e ∈ B.shared.effects, e.2.Tidy limit := by
  refine Pool.steps_keeps V.app (I := fun w : Process M.State => ∀ e ∈ w.effects, e.2.Tidy limit) happ (fun i o w ho hw => ?_)
    (fun e he => by cases he) hB
  have hdid : ∀ d : Effect, d.Tidy limit → ∀ e ∈ (w.did i d).effects, e.2.Tidy limit := by
    intro d hd e he
    rcases List.mem_append.mp he with he | he
    · exact hw e he
    · rw [List.mem_singleton.mp he]
      exact hd
  cases o with
  | inner o => exact hw
  | send m => exact hdid _ ho
  | log r => exact hdid _ ho

variable {P : Pool (wrapped M H) C Unit}

/-- What a thread has done is its own, and can be read back. -/
theorem effects_owned {limit : Nat} (h0 : 0 < limit) (happ : ∀ c, (V.app c).Uses (Tidy limit))
    (hP : Pool.Steps V.behind (.fresh (Process.initial s)) P) (j : Nat) :
    (∃ scope, Owned scope (P.shared.effectsOf j)) ∧ ∀ e ∈ P.shared.effectsOf j, e.Tidy limit := by
  obtain ⟨B, hB, hrel⟩ := related_of_steps V hP
  cases ht : P.threads j with
  | none =>
    have hseen : seen j P.shared = ([], unnamed) := (hrel.idle j ht).2.1
    have hnil : P.shared.effectsOf j = [] := congrArg Prod.fst hseen
    rw [hnil]
    exact ⟨⟨⟨false, [], [], [], none⟩, .inl ⟨fun e he => (by cases he), fun _ => rfl⟩⟩, fun e he => by cases he⟩
  | some t =>
    obtain ⟨p, -, hplace⟩ := hrel.busy j t ht
    have hplace : Place (V.scope t.call) (P.shared.effectsOf j, P.shared.ids j) (B.shared.effectsOf j) t.prog p := hplace
    refine ⟨⟨_, hplace.owned⟩, hplace.tidy h0 fun e he => ?_⟩
    exact tidy_bare happ hB _ (mem_tally.mp he)

/-- Who is given no other id is not given this one. -/
theorem not_named {id id' : Str} (h : ∀ e ∈ es, Marked id' e) : es.any (Effect.names id) = false := by
  refine List.any_eq_false.mpr fun e he => ?_
  have hmark := h e he
  cases e with
  | named id'' => exact hmark.elim
  | _ => exact Bool.false_ne_true

theorem any_names {id id' : Str} {rest : List Effect} (h : ∀ e ∈ rest, Marked id' e) :
    (Effect.named id' :: rest).any (Effect.names id) = (id' == id) := by
  rw [List.any_cons, not_named h, Bool.or_false]
  rfl

/-- A line is selected by an id if its thread was given it. -/
theorem selects_written [Platform] {limit : Nat} (h0 : 0 < limit) {id : Str} (hid : id ≠ unnamed) {r : LogRecord} {created : Int} {context : Str}
    (howned : Owned scope es) (htidy : ∀ e ∈ es, e.Tidy limit) (h : .wrote r created context ∈ es) :
    selects limit id (r.format created context) = es.any (Effect.names id) := by
  rw [selects_format h0 (htidy _ h)]
  rcases howned with ⟨hmarked, -⟩ | ⟨id', rest, -, rfl, hmarked, -⟩
  · obtain rfl : context = unnamed := hmarked _ h
    rw [not_named hmarked]
    exact beq_false_of_ne (Ne.symm hid)
  · rw [any_names hmarked]
    rcases List.mem_cons.mp h with h | h
    · cases h
    · rw [show context = id' from hmarked _ h]

/-- What is selected by an id is what the threads that were given it have written. -/
theorem selected_lines [Platform] {limit : Nat} (h0 : 0 < limit) {σ : Type} {w : Process σ}
    (hw : ∀ j, (∃ scope, Owned scope (w.effectsOf j)) ∧ ∀ e ∈ w.effectsOf j, e.Tidy limit) {id : Str} (hid : id ≠ unnamed) :
    (lines w.stdout).filter (selects limit id) = w.written (w.gave id) := by
  rw [lines_stdout, List.filter_filterMap]
  refine List.filterMap_congr fun e he => ?_
  obtain ⟨j, d⟩ := e
  cases d with
  | wrote r created context =>
    obtain ⟨⟨scope, howned⟩, htidy⟩ := hw j
    have hselects := selects_written h0 hid howned htidy (mem_tally.mpr he)
    show (some (r.format created context)).filter (selects limit id) = _
    rw [Option.filter_some, hselects]
    rfl
  | _ =>
    show none = if w.gave id j then none else none
    rw [ite_self]

theorem written_only [Platform] {σ : Type} {w : Process σ} {f : Nat → Bool} {i : Nat} (hi : f i = true) (h : ∀ j, j ≠ i → f j = false) :
    w.written f = w.written (· == i) := by
  refine List.filterMap_congr fun e _ => ?_
  by_cases hj : e.1 = i
  · rw [hj, hi, if_pos rfl, if_pos (beq_self_eq_true i)]
  · have hne : (e.1 == i) = false := beq_false_of_ne hj
    show _ = if (e.1 == i) = true then e.2.line else none
    rw [h e.1 hj, hne]

theorem gave_of_named {σ : Type} {w : Process σ} {i : Nat} {id : Str} {rest : List Effect} (h : w.effectsOf i = .named id :: rest)
    (hmarked : ∀ e ∈ rest, Marked id e) : w.gave id i = true := by
  unfold Process.gave
  rw [h, any_names hmarked]
  exact beq_self_eq_true id

theorem sent_of_messages {σ : Type} {w : Process σ} {i : Nat} {m : Message} (h : m ∈ w.messages i) : .sent m ∈ w.effectsOf i := by
  obtain ⟨e, he, hm⟩ := List.mem_filterMap.mp h
  cases e with
  | sent m' =>
    cases hm
    exact he
  | _ => cases hm

/-- Whoever reads an id in a response's `x-request-id` header finds with it, among all lines of
    stdout, the lines of the requests that were given this id, and no others; they are the lines of
    this request if it is the only one. -/
theorem lines_of_request [Platform] {limit : Nat} (h0 : 0 < limit) (happ : ∀ c, (V.app c).Uses (Tidy limit))
    (hP : Pool.Steps V.behind (.fresh (Process.initial s)) P) {i : Nat} {c : C} {q : Wrapped S} (ht : P.threads i = some ⟨c, q⟩)
    (hhttp : (V.scope c).http = true) {status : Nat} {headers : Option (List (Str × Str))}
    (hsent : .start status headers ∈ P.shared.messages i) :
    ∃ id own, headers = some (own ++ [("x-request-id".toList, id)]) ∧ Given (V.scope c) id ∧ P.shared.gave id i = true ∧
      (lines P.shared.stdout).filter (selects limit id) = P.shared.written (P.shared.gave id) ∧
      ((∀ j, j ≠ i → P.shared.gave id j = false) → P.shared.written (P.shared.gave id) = P.shared.written (· == i)) := by
  obtain ⟨B, -, hrel⟩ := related_of_steps V hP
  obtain ⟨p, -, hplace⟩ := hrel.busy i _ ht
  have hplace : Place (V.scope c) (P.shared.effectsOf i, P.shared.ids i) (B.shared.effectsOf i) q p := hplace
  have hmem := sent_of_messages hsent
  rcases hplace.owned with ⟨-, hnil⟩ | ⟨id, rest, hgiven, hes, hmarked, hstamped⟩
  · rw [hnil hhttp] at hmem
    cases hmem
  · have hheader : ∃ own, headers = some (own ++ [("x-request-id".toList, id)]) := by
      rw [hes] at hmem
      rcases List.mem_cons.mp hmem with hmem | hmem
      · cases hmem
      · obtain ⟨m, hm⟩ := hstamped _ hmem
        cases m with
        | start status' headers' =>
          cases hm
          exact ⟨_, rfl⟩
        | other kind => cases hm
    obtain ⟨own, hown⟩ := hheader
    have hgave := gave_of_named hes hmarked
    exact ⟨id, own, hown, hgiven, hgave, selected_lines h0 (effects_owned h0 happ hP) hgiven.ne_unnamed, written_only hgave⟩

end

/-! ## The lines of two visitors -/

theorem tidy_visitors : ∀ c, (visitors.app c).Uses (Tidy 10) := by
  intro c
  have hshort : ∀ status : Nat, status < 1000 → Short status := by
    intro status h
    have hlen : (natText status).length ≤ 3 := (Nat.length_toDigits_le_iff (by decide) (by decide)).mpr h
    unfold Short
    omega
  exact ⟨fun e he => (by cases he), fun _ => ⟨hshort 200 (by decide), fun _ => ⟨hshort 500 (by decide), fun _ => trivial⟩⟩⟩

theorem lines_of_request_visited : ∃ id : Str, visited.shared.gave id 0 = true ∧
    (lines (@Process.stdout .ascii Unit visited.shared)).filter (selects 10 id) =
      @Process.written .ascii Unit visited.shared (visited.shared.gave id) := by
  have hany : (visited.shared.messages 0).any Message.starts = true := by decide +kernel
  obtain ⟨m, hm, hstarts⟩ := List.any_eq_true.mp hany
  cases m with
  | other kind => cases hstarts
  | start status headers =>
    obtain ⟨id, -, -, -, hgave, hlines, -⟩ := @lines_of_request idle nowhere clockwork Unit visitors () visited .ascii 10 (by decide)
      tidy_visitors visited_steps 0 () _ visited_over rfl status headers hm
    exact ⟨id, hgave, hlines⟩

end Asgi

end CivicPulse
