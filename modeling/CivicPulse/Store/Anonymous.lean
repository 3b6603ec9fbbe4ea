/-
  CivicPulse.Store.Anonymous — the store without its contacts.

  `anonymous` forgets every `reporter_contact`: in the rows, in what a session is about to
  write, in what is read, in the log.
  - `after_anonymous`, `eval_anonymous`: writing and reading go on as before.
  - `constraints_anonymous`: forgetting a contact that fits its column changes no check.
  - `commutes_anonymous`: the machine does without contacts what is left of what it does
    with them, unless an `INSERT` is refused for its contact.
-/

import CivicPulse.Lang.Image
import CivicPulse.Store.World

namespace CivicPulse

open Text Lang

/-! ## Rows and tables -/

def Complaint.anonymous (c : Complaint) : Complaint := { c with reporterContact := none }

/-- The column holds the contact. -/
def ContactFits (contact : Option Str) : Prop := ∀ s, contact = some s → s.length ≤ 200 ∧ hasNul s = false

instance (contact : Option Str) : Decidable (ContactFits contact) :=
  decidable_of_iff (contact.all fun s => decide (s.length ≤ 200 ∧ hasNul s = false)) (by cases contact <;> simp [ContactFits])

theorem constraints_anonymous {c : Complaint} (h : ContactFits c.reporterContact) : c.anonymous.Constraints ↔ c.Constraints :=
  ⟨fun hc => { hc with contactLen := fun s hs => (h s hs).1, contactNul := fun s hs => (h s hs).2 },
    fun hc => { hc with contactLen := nofun, contactNul := nofun }⟩

theorem Complaint.Constraints.contactFits {c : Complaint} (h : c.Constraints) : ContactFits c.reporterContact :=
  fun s hs => ⟨h.contactLen s hs, h.contactNul s hs⟩

namespace Table

variable {t t' : Table}

theorem eq_of_rows (h : t.rows = t'.rows) : t = t' := by
  cases t
  cases t'
  cases h
  rfl

def anonymous (t : Table) : Table where
  rows := t.rows.map Complaint.anonymous
  nodup := by
    rw [List.map_map]
    exact t.nodup

theorem rows_anonymous : t.anonymous.rows = t.rows.map Complaint.anonymous := rfl

@[simp] theorem ids_anonymous : t.anonymous.ids = t.ids := List.map_map

theorem find_anonymous (id : Uuid) : t.anonymous.find id = (t.find id).map Complaint.anonymous := List.find?_map ..

theorem insert_anonymous (c : Complaint) : (t.insert c).anonymous = t.anonymous.insert c.anonymous := by
  by_cases h : c.id ∈ t.ids
  · have h' : c.anonymous.id ∈ t.anonymous.ids := by rwa [ids_anonymous]
    rw [insert, dif_pos h, insert, dif_pos h']
  · have h' : c.anonymous.id ∉ t.anonymous.ids := by rwa [ids_anonymous]
    apply eq_of_rows
    rw [rows_anonymous, rows_insert h, rows_insert h', List.map_append]
    rfl

theorem setStatus_anonymous (id : Uuid) (s : Status) (at_ : Int) :
    (t.setStatus id s at_).anonymous = t.anonymous.setStatus id s at_ := by
  apply eq_of_rows
  simp only [anonymous, setStatus, List.map_map]
  refine List.map_congr_left fun c _ => ?_
  simp only [Function.comp_apply]
  rw [apply_ite Complaint.anonymous]
  rfl

theorem keys_anonymous (col : Column) : t.anonymous.rows.map col.key = t.rows.map col.key := by
  rw [anonymous, List.map_map]
  cases col <;> rfl

theorem groupBy_anonymous (col : Column) : t.anonymous.groupBy col = t.groupBy col := by
  rw [groupBy, groupBy, keys_anonymous]

theorem avgLatency_anonymous : t.anonymous.avgLatency = t.avgLatency := by
  rw [avgLatency, avgLatency, anonymous, List.map_map, List.isEmpty_map, List.length_map]
  rfl

end Table

theorem filter_anonymous (f : ComplaintFilters) (rows : List Complaint) :
    (rows.map Complaint.anonymous).filter f.keeps = (rows.filter f.keeps).map Complaint.anonymous := List.filter_map

/-! ## Sessions -/

def Write.anonymous : Write → Write
  | .insert c => .insert c.anonymous
  | .setStatus id s at_ => .setStatus id s at_

theorem apply_anonymous (t : Table) (w : Write) : (w.apply t).anonymous = w.anonymous.apply t.anonymous := by
  cases w with
  | insert c => exact Table.insert_anonymous c
  | setStatus id s at_ => exact Table.setStatus_anonymous id s at_

theorem after_anonymous (t : Table) (ws : List Write) : (t.after ws).anonymous = t.anonymous.after (ws.map Write.anonymous) := by
  induction ws generalizing t with
  | nil => rfl
  | cons w ws ih => rw [List.map_cons, Table.after_cons, Table.after_cons, ih, apply_anonymous]

def Commit.anonymous (c : Commit) : Commit := ⟨c.tid, c.writes.map Write.anonymous, c.table.anonymous⟩

namespace Db

variable {db : Db} {i : Nat}

def anonymous (db : Db) : Db where
  table := db.table.anonymous
  commits := db.commits.map Commit.anonymous
  pending i := (db.pending i).map Write.anonymous
  locks := db.locks
  advisory := db.advisory

theorem view_anonymous : db.anonymous.view i = (db.view i).anonymous := (after_anonymous db.table (db.pending i)).symm

theorem pending_anonymous (db : Db) (i : Nat) (ws : List Write) :
    (fun j => (Function.update db.pending i ws j).map Write.anonymous) =
      Function.update db.anonymous.pending i (ws.map Write.anonymous) :=
  Function.comp_update (List.map Write.anonymous) db.pending i ws

theorem write_anonymous (w : Write) (id : Uuid) : (db.write i w id).anonymous = db.anonymous.write i w.anonymous id := by
  have h := pending_anonymous db i (db.pending i ++ [w])
  rw [List.map_append] at h
  exact congrArg (fun p => { db.anonymous with pending := p, locks := db.lock i id }) h

theorem finish_anonymous : (db.finish i).anonymous = db.anonymous.finish i :=
  congrArg (fun p => { db.anonymous.finish i with pending := p }) (pending_anonymous db i [])

theorem commit_anonymous : (db.commit i).anonymous = db.anonymous.commit i := by
  have hempty : (db.anonymous.pending i).isEmpty = (db.pending i).isEmpty := List.isEmpty_map
  rw [commit, commit, hempty, view_anonymous]
  split
  · exact finish_anonymous
  · rw [← finish_anonymous]
    rfl

end Db
/-! ## Queries -/

/-- What a query's answer is without contacts. -/
def Query.forget : (q : Query) → q.Ans → q.Ans
  | .byId _, c => c.map Complaint.anonymous
  | .page _ _ _, rows => rows.map Complaint.anonymous
  | .countAvg, r => r
  | .groupBy _, r => r
  | .count _, r => r

theorem countP_anonymous (t : Table) (f : ComplaintFilters) : t.anonymous.rows.countP f.keeps = t.rows.countP f.keeps :=
  List.countP_map

theorem eval_anonymous (q : Query) (t : Table) : q.eval t.anonymous = q.forget (q.eval t) := by
  cases q with
  | countAvg =>
    show (t.anonymous.rows.length, t.anonymous.avgLatency) = (t.rows.length, t.avgLatency)
    rw [Table.avgLatency_anonymous, Table.rows_anonymous, List.length_map]
  | groupBy col => exact Table.groupBy_anonymous col
  | byId id => exact Table.find_anonymous id
  | count f => exact countP_anonymous t f
  | page f offset limit =>
    show page Complaint.order _ _ (t.anonymous.rows.filter f.keeps) = (page Complaint.order _ _ (t.rows.filter f.keeps)).map _
    rw [Table.rows_anonymous, filter_anonymous]
    have horder : ∀ c : Complaint, c.anonymous.order = c.order := fun _ => rfl
    exact page_map horder _ _ _

theorem fits_anonymous (q : Query) (t : Table) : q.fits t.anonymous = q.fits t := by
  have hlength : t.anonymous.rows.length = t.rows.length := List.length_map _
  cases q with
  | countAvg => exact congrArg (fun n => decide (n < 2 ^ 63)) hlength
  | groupBy col => exact congrArg (fun n => decide (n < 2 ^ 63)) hlength
  | byId id => rfl
  | count f => exact congrArg (fun n => decide (n < 2 ^ 63)) (countP_anonymous t f)
  | page f offset limit => rfl

/-! ## Operations -/

def Draft.anonymous (d : Draft) : Draft := { d with reporterContact := none }

theorem row_anonymous (d : Draft) (createdAt updatedAt : Int) :
    d.anonymous.row createdAt updatedAt = (d.row createdAt updatedAt).map Complaint.anonymous := by
  rw [Draft.row, Draft.row, Option.map_map]
  rfl

def Op.anonymous : Op → Op
  | .insert d => .insert d.anonymous
  | .insertRow c => .insertRow c.anonymous
  | o => o

def Op.forget : (o : Op) → o.Ans → o.anonymous.Ans
  | .select q, r => r.map q.forget
  | .selectForUpdate _, r => r.map (Option.map Complaint.anonymous)
  | .insert _, r => r.map Complaint.anonymous
  | .insertRow _, r => r
  | .get _, r => r
  | .set _ _ _, r => r
  | .delete _, r => r
  | .incr _, r => r
  | .pushTrim _ _ _, r => r
  | .lrange _ _, r => r
  | .incrExpire _ _, r => r
  | .ping, r => r
  | .updateStatus _ _, r => r
  | .advisoryLock _, r => r
  | .commit, r => r
  | .rollback, r => r
  | .close, r => r
  | .triage _ _ _ _, r => r
  | .perfCounter, r => r
  | .time, r => r
  | .utcnow, r => r
  | .uuid4, r => r
  | .warn _ _, r => r

/-- What is left without the contacts. -/
def anonymous : View sig := ⟨Op.anonymous, Op.forget⟩

def Event.anonymous (ev : Event) : Event := ⟨ev.tid, ev.op.anonymous, ev.op.forget ev.ans⟩

/-- It is no `INSERT` that was refused for its contact. -/
def Op.accepts : (o : Op) → o.Ans → Bool
  | .insert d, .error _ => decide (ContactFits d.reporterContact)
  | .insertRow c, .error _ => decide (ContactFits c.reporterContact)
  | _, _ => true

namespace World

def anonymous (w : World) : World := ⟨w.clock, w.ticks, w.redis, w.db.anonymous, w.log.map Event.anonymous⟩

/-- No `INSERT` was refused for its contact. -/
def AcceptsContacts (w : World) : Prop := ∀ ev ∈ w.log, ev.op.accepts ev.ans = true

instance (w : World) : Decidable w.AcceptsContacts :=
  inferInstanceAs (Decidable (∀ ev ∈ w.log, ev.op.accepts ev.ans = true))

/-! ## One operation -/

variable {E : Env} {i : Nat} {w : World}

/-- A statement that does the same without contacts. -/
theorem dbOp_anonymous {α β : Type} (stmt : Db → Except Exc α × Db) (stmt' : Db → Except Exc β × Db)
    (g : Except Exc α → Except Exc β) (hg : ∀ e, g (.error e) = .error e)
    (h : E.dbFault w.ticks = none → stmt' w.db.anonymous = (g (stmt w.db).1, (stmt w.db).2.anonymous)) :
    w.anonymous.dbOp E stmt' = (g (w.dbOp E stmt).1, (w.dbOp E stmt).2.1, (w.dbOp E stmt).2.2.anonymous) := by
  rcases hf : E.dbFault w.ticks with _ | cls
  · have hf' : E.dbFault w.anonymous.ticks = none := hf
    have hdb : w.anonymous.db = w.db.anonymous := rfl
    rw [dbOp_none hf, dbOp_none hf', hdb, h hf]
    rfl
  · have hf' : E.dbFault w.anonymous.ticks = some cls := hf
    rw [dbOp, dbOp, hf, hf']
    simp only [hg]
    rfl

theorem select_anonymous (q : Query) (db : Db) :
    selectStmt i q db.anonymous = ((selectStmt i q db).1.map q.forget, (selectStmt i q db).2.anonymous) := by
  rw [selectStmt, selectStmt, Db.view_anonymous, fits_anonymous, eval_anonymous]
  split <;> rfl

theorem selectForUpdate_anonymous (id : Uuid) (db : Db) :
    selectForUpdateStmt i id db.anonymous =
      ((selectForUpdateStmt i id db).1.map (Option.map Complaint.anonymous), (selectForUpdateStmt i id db).2.anonymous) := by
  rw [selectForUpdateStmt, selectForUpdateStmt, Db.view_anonymous, Table.find_anonymous]
  cases (db.view i).find id <;> rfl

theorem insertRow_anonymous (c : Complaint) (db : Db) (h : ∀ e, (insertRowStmt i c db).1 = .error e → ContactFits c.reporterContact) :
    insertRowStmt i c.anonymous db.anonymous = ((insertRowStmt i c db).1, (insertRowStmt i c db).2.anonymous) := by
  have hfits : ContactFits c.reporterContact := by
    by_cases hc : c.Constraints
    · exact hc.contactFits
    · exact h refused (by rw [insertRowStmt, if_neg fun h => hc h.1])
  have hcheck : (c.anonymous.Constraints ∧ int4 c.anonymous.triageLatencyMs = true) ↔
      (c.Constraints ∧ int4 c.triageLatencyMs = true) := and_congr_left' (constraints_anonymous hfits)
  rw [insertRowStmt, insertRowStmt]
  simp only [hcheck, Db.view_anonymous, Table.ids_anonymous]
  split
  · show (if c.id ∈ (db.view i).ids then _ else _) = _
    split
    · rfl
    · exact congrArg (Prod.mk _) (Db.write_anonymous (.insert c) c.id).symm
  · rfl

theorem insertStmt_row {d : Draft} {c : Complaint} {createdAt updatedAt : Int} (h : d.row createdAt updatedAt = some c) (db : Db) :
    insertStmt i createdAt updatedAt d db = ((insertRowStmt i c db).1.map fun _ => c, (insertRowStmt i c db).2) := by
  rw [insertStmt, insertRowStmt, h]
  simp only
  split
  · split <;> rfl
  · rfl

theorem insert_anonymous (createdAt updatedAt : Int) (d : Draft) (db : Db)
    (h : ∀ e, (insertStmt i createdAt updatedAt d db).1 = .error e → ContactFits d.reporterContact) :
    insertStmt i createdAt updatedAt d.anonymous db.anonymous =
      ((insertStmt i createdAt updatedAt d db).1.map Complaint.anonymous, (insertStmt i createdAt updatedAt d db).2.anonymous) := by
  rcases hrow : d.row createdAt updatedAt with _ | c
  · rw [insertStmt, insertStmt, row_anonymous, hrow]
    rfl
  · have hcontact : c.reporterContact = d.reporterContact := by
      obtain ⟨_, -, rfl⟩ := Option.map_eq_some_iff.mp hrow
      rfl
    have hrow' : d.anonymous.row createdAt updatedAt = some c.anonymous := by rw [row_anonymous, hrow, Option.map_some]
    rw [insertStmt_row hrow] at h ⊢
    rw [insertStmt_row hrow', insertRow_anonymous c db fun e he => hcontact ▸ h e (by rw [he]; rfl)]
    cases (insertRowStmt i c db).1 <;> rfl

/-- What an operation does without contacts. -/
theorem effect_anonymous [Platform] (o : Op) (h : o.accepts (w.effect E i o).1 = true) :
    w.anonymous.effect E i o.anonymous =
      (o.forget (w.effect E i o).1, (w.effect E i o).2.1, (w.effect E i o).2.2.anonymous) := by
  cases o with
  | select q => exact dbOp_anonymous _ _ (Except.map q.forget) (fun _ => rfl) fun _ => select_anonymous q w.db
  | selectForUpdate id =>
    exact dbOp_anonymous _ _ (Except.map (Option.map Complaint.anonymous)) (fun _ => rfl) fun _ => selectForUpdate_anonymous id w.db
  | insert d =>
    refine dbOp_anonymous _ _ (Except.map Complaint.anonymous) (fun _ => rfl) fun hf => insert_anonymous _ _ d w.db fun e he => ?_
    have hans : (w.effect E i (.insert d)).1 = .error e := (congrArg Prod.fst (dbOp_none hf _)).trans he
    rw [hans] at h
    exact of_decide_eq_true h
  | insertRow c =>
    refine dbOp_anonymous _ _ id (fun _ => rfl) fun hf => insertRow_anonymous c w.db fun e he => ?_
    have hans : (w.effect E i (.insertRow c)).1 = .error e := (congrArg Prod.fst (dbOp_none hf _)).trans he
    rw [hans] at h
    exact of_decide_eq_true h
  | updateStatus row s =>
    let stmt (db : Db) : Except Exc Int × Db := (.ok (E.utc w.ticks 0), db.write i (.setStatus row s (E.utc w.ticks 0)) row)
    have h : stmt w.db.anonymous = ((stmt w.db).1, (stmt w.db).2.anonymous) :=
      congrArg (Prod.mk _) (Db.write_anonymous (.setStatus row s (E.utc w.ticks 0)) row).symm
    exact dbOp_anonymous stmt stmt id (fun _ => rfl) fun _ => h
  | advisoryLock key =>
    let stmt (db : Db) : Except Exc Unit × Db := (.ok (), { db with advisory := Function.update db.advisory key (some i) })
    exact dbOp_anonymous (w := w) stmt stmt id (fun _ => rfl) fun _ => rfl
  | commit =>
    let stmt (db : Db) : Except Exc Unit × Db := (.ok (), db.commit i)
    have h : stmt w.db.anonymous = ((stmt w.db).1, (stmt w.db).2.anonymous) := congrArg (Prod.mk _) Db.commit_anonymous.symm
    exact dbOp_anonymous stmt stmt id (fun _ => rfl) fun _ => h
  | rollback => exact congrArg (fun db => (_, _, db)) Db.finish_anonymous.symm
  | close => exact congrArg (fun db => (_, _, db)) Db.finish_anonymous.symm
  | triage role p text location =>
    cases p with
    | rules =>
      -- what the rules answer is not looked at
      simp only [effect, Op.forget]
      rfl
    | external name => rfl
  | _ => rfl

theorem enabled_anonymous (o : Op) : w.anonymous.enabled i o.anonymous = w.enabled i o := by
  cases o with
  | selectForUpdate id =>
    show (_ || !(w.db.anonymous.view i).ids.contains id) = _
    rw [Db.view_anonymous, Table.ids_anonymous]
    rfl
  | _ => rfl

end World

theorem commutes_anonymous [Platform] (E : Env) : Commutes anonymous (machine E) World.anonymous World.AcceptsContacts where
  enabled _ o _ := World.enabled_anonymous o
  exec i o w h := by
    have heffect := World.effect_anonymous o (h _ List.mem_cons_self)
    show World.exec E i o.anonymous w.anonymous = _
    rw [World.exec, heffect]
    rfl
  back _ _ _ h := fun ev hev => h ev (List.mem_cons_of_mem _ hev)

end CivicPulse
