import Minisqlite.Lib.Sql.Encoded

/-!
# Statements that change rows

`INSERT`, `INSERT OR IGNORE`, `INSERT … ON CONFLICT DO UPDATE`, `UPDATE` and `DELETE` of one
table. A statement goes through the rows in order, checks every row that it writes, and
fails as a whole if it breaks a constraint. References are looked at last: those of the rows
inserted, and all of them after a statement that writes a column of a reference or deletes
from a table to which others refer. ON DELETE CASCADE is left out.

* `Encoding.exec_insert`, `exec_insertOrIgnore`, `exec_upsert`, `exec_update`, `exec_delete`: on
  the rows of a typed table, such a statement is the one of the typed table.
-/

namespace Sql

universe u

/-! ## Rows -/

/-- What `SET` assigns. -/
inductive Scalar
  | plain (term : Term)
  /-- `COALESCE(first, second)`. -/
  | coalesce (first second : Term)

def Scalar.eval (row : String → Value) : Scalar → Value
  | .plain term => term.eval row
  | .coalesce first second =>
    if (first.eval row).isNull then second.eval row else first.eval row

abbrev Assignments := List (String × Scalar)

namespace TableDef

variable (defn : TableDef)

/-- The values in the columns named, and NULL in the others. -/
def inserted (columns : List String) (values : Row) : Row :=
  defn.names.map (valueOf columns values)

/-- The row after `SET`. -/
def assigned (set : Assignments) (value : String → Value) (row : Row) : Row :=
  defn.names.zipWith (fun name v => (set.lookup name).elim v (Scalar.eval value)) row

/-- What the expressions of `DO UPDATE` see: the row that is there and, as `excluded`, the
one that was not inserted. -/
def excluding (new row : Row) : String → Value :=
  valueOf (defn.names ++ defn.names.map ("excluded." ++ ·)) (row ++ new)

/-- The rows agree on a key, and none of its columns is NULL. -/
def sameKey (key : List String) (a b : Row) : Bool :=
  key.all fun name =>
    !(defn.value a name).isNull && (defn.value a name).same (defn.value b name)

end TableDef

/-- The rows of an UPDATE, one after the other. -/
def updateRows (coerce : Affinity → Value → Value) (defn : TableDef) (p : Row → Bool)
    (f : Row → Row) (done : List Row) : List Row → Except String (List Row)
  | [] => .ok done
  | row :: rest =>
    if p row then
      let after := defn.stored coerce (f row)
      if ¬ defn.present after then .error "NOT NULL constraint failed"
      else if ¬ defn.allowed after then .error "CHECK constraint failed"
      else if done.any (fun other => defn.clash other after) || rest.any (defn.clash after) then
        .error "UNIQUE constraint failed"
      else updateRows coerce defn p f (done ++ [after]) rest
    else updateRows coerce defn p f (done ++ [row]) rest

/-! ## Statements -/

inductive Write
  | insert (table : String) (columns : List String) (values : Row)
  | insertOrIgnore (table : String) (columns : List String) (values : Row)
  /-- `INSERT … ON CONFLICT(key) DO UPDATE SET set`. -/
  | upsert (table : String) (columns : List String) (values : Row) (key : List String)
      (set : Assignments)
  | update (table : String) (set : Assignments) (condition : Condition)
  /-- `DELETE … WHERE condition AND NOT EXISTS (SELECT 1 FROM …)`. -/
  | delete (table : String) (condition : Condition) (absent : Option (String × Condition))

def Write.table : Write → String
  | .insert table _ _ | .insertOrIgnore table _ _ | .upsert table _ _ _ _ | .update table _ _
  | .delete table _ _ => table

/-- The columns that the statement writes. -/
def Write.columns : Write → List String
  | .insert _ columns _ | .insertOrIgnore _ columns _ => columns
  | .upsert _ columns _ key set => columns ++ key ++ set.map Prod.fst
  | .update _ set _ => set.map Prod.fst
  | .delete .. => []

/-- A reference goes from this column, or to it. -/
def Schema.linked (schema : Schema) (name column : String) : Bool :=
  schema.tables.entries.any fun entry => entry.2.foreignKeys.any fun key =>
    (decide (entry.1 = name) && key.columns.contains column) ||
      (decide (key.parent = name) && key.parentColumns.contains column)

namespace Database

variable (coerce : Affinity → Value → Value) (db : Database)

/-- Other rows in one of the tables. -/
def put (name : String) (rows : List Row) : Database :=
  { db with rows := Function.update db.rows name rows }

/-- All references of all rows. -/
def intact : Bool :=
  db.schema.tables.entries.all fun entry => db.referencesHold entry.2 (db.rows entry.1)

def insertInto (name : String) (defn : TableDef) (row : Row) : Except String Database := do
  let rows ← insertRow coerce defn (db.rows name) row
  let after := db.put name rows
  if after.referencesHold defn [defn.stored coerce row] then .ok after
  else .error "FOREIGN KEY constraint failed"

def updateIn (name : String) (defn : TableDef) (set : Assignments) (p : Row → Bool)
    (f : Row → Row) : Except String Database := do
  let rows ← updateRows coerce defn p f [] (db.rows name)
  let after := db.put name rows
  if (set.any fun assignment => db.schema.linked name assignment.1) && !after.intact then
    .error "FOREIGN KEY constraint failed"
  else .ok after

/-- The subquery has a row. -/
def hasRow (name : String) (condition : Condition) : Except String Bool :=
  match db.relation name with
  | none => .error s!"no such table: {name}"
  | some relation =>
    .ok (relation.rows.any fun row => condition.selects (valueOf relation.names row))

def deleteFrom (name : String) (p : Row → Bool) : Except String Database :=
  let after := db.put name ((db.rows name).filter fun row => !p row)
  if db.schema.refersTo name && !after.intact then .error "FOREIGN KEY constraint failed"
  else .ok after

end Database

/-- The statement on its table. -/
def Write.run (coerce : Affinity → Value → Value) (db : Database) (defn : TableDef) :
    Write → Except String Database
  | .insert name columns values => db.insertInto coerce name defn (defn.inserted columns values)
  | .insertOrIgnore name columns values =>
    let row := defn.inserted columns values
    if (insertRow coerce defn (db.rows name) row).isOk then db.insertInto coerce name defn row
    else .ok db
  | .upsert name columns values key set =>
    let row := defn.inserted columns values
    let new := defn.stored coerce row
    if (db.rows name).any fun other => defn.sameKey key other new then
      if ¬ defn.present new then .error "NOT NULL constraint failed"
      else if ¬ defn.allowed new then .error "CHECK constraint failed"
      else db.updateIn coerce name defn set (fun other => defn.sameKey key other new)
        fun other => defn.assigned set (defn.excluding new other) other
    else db.insertInto coerce name defn row
  | .update name set condition =>
    db.updateIn coerce name defn set (fun row => condition.selects (defn.value row))
      fun row => defn.assigned set (defn.value row) row
  | .delete name condition absent => do
    let found ← absent.elim (.ok false) fun other => db.hasRow other.1 other.2
    db.deleteFrom name fun row => condition.selects (defn.value row) && !found

def Write.exec (coerce : Affinity → Value → Value) (db : Database) (write : Write) :
    Except String Database :=
  match db.schema.table write.table with
  | none => .error s!"no such table: {write.table}"
  | some defn =>
    if write.columns ⊆ defn.names then write.run coerce db defn else .error "no such column"

/-! ## Statements on records -/

section Records

open Tables

variable {ρ : Type u} {S : Tables.Schema ρ} {defn : TableDef} {encode : ρ → Row}
  {coerce : Affinity → Value → Value} {db : Database} {name : String}

theorem Database.put_same (db : Database) (name : String) : db.put name (db.rows name) = db := by
  unfold Database.put
  rw [Function.update_eq_self]

/-- A statement on a table that is there. -/
theorem Write.exec_eq (write : Write) (htable : db.schema.table write.table = some defn)
    (hcolumns : write.columns ⊆ defn.names) : write.exec coerce db = write.run coerce db defn := by
  unfold exec
  rw [htable]
  exact if_pos hcolumns

/-- The subquery on records. -/
theorem Database.Holds.hasRow {records : List ρ} {condition : Condition} {p : ρ → Bool}
    (h : db.Holds name defn encode records)
    (hp : ∀ r ∈ records, condition.selects (defn.value (encode r)) = p r) :
    db.hasRow name condition = .ok (records.any p) := by
  unfold Database.hasRow
  rw [h.relation]
  refine congrArg Except.ok ?_
  rw [List.any_map, Bool.eq_iff_iff, List.any_eq_true, List.any_eq_true]
  refine exists_congr fun r => and_congr_right fun hr => ?_
  exact Bool.eq_iff_iff.mp (hp r hr)

/-- The references of one row, in a table with one key of one column that is not NULL. -/
theorem Database.Holds.referencesHold {records : List ρ} {child : TableDef}
    {column parent parentColumn : String} {row : Row} {p : ρ → Bool}
    (h : db.Holds parent defn encode records)
    (hkeys : child.foreignKeys = [⟨[column], parent, [parentColumn]⟩]) (hname : parent ≠ name)
    (hnull : (child.value row column).isNull = false)
    (hp : ∀ r ∈ records,
      (child.value row column).same (defn.value (encode r) parentColumn) = p r)
    (rows : List Row) : (db.put name rows).referencesHold child [row] = records.any p := by
  have hrefers : child.refers defn (records.map encode) ⟨[column], parent, [parentColumn]⟩ row =
      records.any p := by
    have hmatch : ∀ r ∈ records, ([(column, parentColumn)].all fun names =>
        (child.value row names.1).same (defn.value (encode r) names.2)) = p r := fun r hr =>
      (Bool.and_true _).trans (hp r hr)
    have hnone : ([column].any fun name => (child.value row name).isNull) = false :=
      (Bool.or_false _).trans hnull
    rw [TableDef.refers, hnone, Bool.false_or, List.any_map]
    exact Bool.eq_iff_iff.mpr (by
      simp only [List.any_eq_true]
      exact exists_congr fun r => and_congr_right fun hr => Bool.eq_iff_iff.mp (hmatch r hr))
  have hrows : (db.put name rows).rows parent = records.map encode :=
    (Function.update_of_ne hname _ _).trans h.rows
  have htable : (db.put name rows).schema.table parent = some defn := h.table
  rw [Database.referencesHold, hkeys, List.all_cons, List.all_nil, Bool.and_true, htable, hrows]
  exact (Bool.and_true _).trans hrefers

namespace Encoding

variable {t : Table S} {columns : List String} {values : Row} {r : ρ} {p : Bool}

theorem insertInto (h : Encoding S defn encode) (hcoerce : Settled coerce)
    (hholds : db.Holds name defn encode t.rows)
    (hrefs : ∀ rows, (db.put name rows).referencesHold defn [encode r] = p) :
    (db.insertInto coerce name defn (encode r)).toOption =
      if p then (t.insert r).map fun after => db.put name (after.rows.map encode) else none := by
  have hinsert := h.insertRow hcoerce t r
  unfold Database.insertInto
  rw [hholds.rows]
  cases hrows : Sql.insertRow coerce defn (t.rows.map encode) (encode r) with
  | error e =>
    rw [hrows] at hinsert
    rw [Option.map_eq_none_iff.mp hinsert.symm]
    cases p <;> rfl
  | ok rows =>
    rw [hrows] at hinsert
    obtain ⟨after, hafter, rfl⟩ := Option.map_eq_some_iff.mp hinsert.symm
    show (if (db.put name _).referencesHold defn [defn.stored coerce (encode r)] then _
      else _ : Except String Database).toOption = _
    rw [hafter, h.stored hcoerce, hrefs]
    cases p <;> rfl

/-- `INSERT`. -/
theorem exec_insert (h : Encoding S defn encode) (hcoerce : Settled coerce)
    (hholds : db.Holds name defn encode t.rows) (hcolumns : columns ⊆ defn.names)
    (hrow : defn.inserted columns values = encode r)
    (hrefs : ∀ rows, (db.put name rows).referencesHold defn [encode r] = p) :
    ((Write.insert name columns values).exec coerce db).toOption =
      if p then (t.insert r).map fun after => db.put name (after.rows.map encode) else none := by
  rw [Write.exec_eq (.insert name columns values) hholds.table hcolumns, Write.run, hrow]
  exact h.insertInto hcoerce hholds hrefs

/-- `INSERT OR IGNORE`. -/
theorem exec_insertOrIgnore (h : Encoding S defn encode) (hcoerce : Settled coerce)
    (hholds : db.Holds name defn encode t.rows) (hcolumns : columns ⊆ defn.names)
    (hrow : defn.inserted columns values = encode r)
    (hrefs : ∀ rows, (db.put name rows).referencesHold defn [encode r] = true) :
    ((Write.insertOrIgnore name columns values).exec coerce db).toOption =
      some (db.put name ((t.insertOrIgnore r).rows.map encode)) := by
  have hinsert := h.insertRow hcoerce t r
  rw [Write.exec_eq (.insertOrIgnore name columns values) hholds.table hcolumns, Write.run,
    hrow, Table.insertOrIgnore, hholds.rows]
  cases hrows : Sql.insertRow coerce defn (t.rows.map encode) (encode r) with
  | error e =>
    rw [hrows] at hinsert
    rw [Option.map_eq_none_iff.mp hinsert.symm, Option.getD_none, ← hholds.rows, db.put_same]
    rfl
  | ok rows =>
    rw [hrows] at hinsert
    obtain ⟨after, hafter, rfl⟩ := Option.map_eq_some_iff.mp hinsert.symm
    refine (h.insertInto hcoerce hholds hrefs).trans ?_
    rw [hafter]
    rfl

/-! The rows of an UPDATE. -/

theorem pairwise_replaced {g : ρ → ρ} (keeps : Keeps S g) {done rest : List ρ} {r : ρ}
    (h : (done ++ r :: rest).Pairwise fun a b => S.clash a b = false) :
    (done ++ g r :: rest).Pairwise fun a b => S.clash a b = false := by
  rw [List.pairwise_append, List.pairwise_cons] at h ⊢
  obtain ⟨hdone, ⟨hr, hrest⟩, hacross⟩ := h
  refine ⟨hdone, ⟨fun b hb => (keeps.left r b).trans (hr b hb), hrest⟩, fun a ha b hb => ?_⟩
  rcases List.mem_cons.mp hb with rfl | hb
  · exact (keeps.right a r).trans (hacross a ha r List.mem_cons_self)
  · exact hacross a ha b (List.mem_cons_of_mem _ hb)

theorem updateRows (h : Encoding S defn encode) (hcoerce : Settled coerce) {q : ρ → Bool}
    {g : ρ → ρ} (keeps : Keeps S g) {p : Row → Bool} {f : Row → Row} (done : List ρ)
    {rest : List ρ} (hp : ∀ r ∈ rest, p (encode r) = q r)
    (hf : ∀ r ∈ rest, q r = true → f (encode r) = encode (g r))
    (hfree : (done ++ rest).Pairwise fun a b => S.clash a b = false) :
    (Sql.updateRows coerce defn p f (done.map encode) (rest.map encode)).toOption =
      if ∀ r ∈ rest, q r = true → S.check (g r) = true then
        some ((done ++ rest.map fun r => if q r then g r else r).map encode)
      else none := by
  induction rest generalizing done with
  | nil => simp [Sql.updateRows, Except.toOption]
  | cons r rest ih =>
    have hnext : ∀ r', (done ++ r' :: rest).Pairwise (fun a b => S.clash a b = false) →
        (Sql.updateRows coerce defn p f ((done ++ [r']).map encode) (rest.map encode)).toOption =
          if ∀ r ∈ rest, q r = true → S.check (g r) = true then
            some ((done ++ r' :: rest.map fun r => if q r then g r else r).map encode)
          else none := fun r' hr' => by
      rw [List.append_cons] at hr'
      rw [ih (done ++ [r']) (fun b hb => hp b (List.mem_cons_of_mem _ hb))
        (fun b hb => hf b (List.mem_cons_of_mem _ hb)) hr', ← List.append_cons]
    rw [List.map_cons, Sql.updateRows, hp r List.mem_cons_self, List.map_cons]
    simp only [List.forall_mem_cons]
    cases hq : q r with
    | false =>
      simp only [Bool.false_eq_true, if_false, false_implies, true_and]
      rw [← List.map_singleton, ← List.map_append]
      exact hnext r hfree
    | true =>
      have hreplaced := pairwise_replaced keeps hfree
      rw [hf r List.mem_cons_self hq, h.stored hcoerce, h.present, h.allowed]
      have hdone :
          (done.map encode).any (fun other => defn.clash other (encode (g r))) = false := by
        rw [List.any_map, List.any_eq_false]
        intro a ha
        rw [Function.comp_apply, h.clash,
          (List.pairwise_append.mp hreplaced).2.2 a ha _ List.mem_cons_self]
        exact Bool.false_ne_true
      have hrest : (rest.map encode).any (defn.clash (encode (g r))) = false := by
        rw [List.any_map, List.any_eq_false]
        intro b hb
        rw [Function.comp_apply, h.clash,
          (List.pairwise_cons.mp (List.pairwise_append.mp hreplaced).2.1).1 b hb]
        exact Bool.false_ne_true
      rw [hdone, hrest]
      cases hcheck : S.check (g r) with
      | false => simp [Except.toOption]
      | true =>
        simp only [not_true_eq_false, if_false, Bool.or_false, Bool.false_eq_true, if_true,
          true_implies, true_and]
        rw [← List.map_singleton, ← List.map_append]
        exact hnext (g r) hreplaced

theorem updateIn (h : Encoding S defn encode) (hcoerce : Settled coerce)
    (hholds : db.Holds name defn encode t.rows) {q : ρ → Bool} {g : ρ → ρ} (keeps : Keeps S g)
    {p : Row → Bool} {f : Row → Row} {set : Assignments} (hp : ∀ r ∈ t.rows, p (encode r) = q r)
    (hf : ∀ r ∈ t.rows, q r = true → f (encode r) = encode (g r))
    (hlinked : (set.any fun assignment => db.schema.linked name assignment.1) = false) :
    (db.updateIn coerce name defn set p f).toOption =
      (t.update q g keeps).map fun after => db.put name (after.rows.map encode) := by
  have hupdate := h.updateRows hcoerce keeps [] hp hf t.unique
  rw [List.map_nil, List.nil_append] at hupdate
  unfold Database.updateIn Table.update
  rw [hholds.rows]
  by_cases hcheck : ∀ r ∈ t.rows, q r = true → S.check (g r) = true
  · rw [if_pos hcheck] at hupdate
    rw [dif_pos hcheck]
    cases hrows : Sql.updateRows coerce defn p f [] (t.rows.map encode) with
    | error e => rw [hrows] at hupdate; cases hupdate
    | ok rows =>
      rw [hrows] at hupdate
      obtain rfl := Option.some.inj hupdate
      show (if ((set.any fun assignment => db.schema.linked name assignment.1) && _) = true then _
        else _ : Except String Database).toOption = _
      rw [hlinked]
      rfl
  · rw [if_neg hcheck] at hupdate
    rw [dif_neg hcheck]
    cases hrows : Sql.updateRows coerce defn p f [] (t.rows.map encode) with
    | error e => rfl
    | ok rows => rw [hrows] at hupdate; cases hupdate

/-- `UPDATE`. -/
theorem exec_update (h : Encoding S defn encode) (hcoerce : Settled coerce)
    (hholds : db.Holds name defn encode t.rows) {q : ρ → Bool} {g : ρ → ρ} (keeps : Keeps S g)
    {set : Assignments} {condition : Condition} (hcolumns : set.map Prod.fst ⊆ defn.names)
    (hcondition : ∀ r ∈ t.rows, condition.selects (defn.value (encode r)) = q r)
    (hset : ∀ r ∈ t.rows, q r = true →
      defn.assigned set (defn.value (encode r)) (encode r) = encode (g r))
    (hlinked : (set.any fun assignment => db.schema.linked name assignment.1) = false) :
    ((Write.update name set condition).exec coerce db).toOption =
      (t.update q g keeps).map fun after => db.put name (after.rows.map encode) := by
  rw [Write.exec_eq (.update name set condition) hholds.table hcolumns, Write.run]
  exact h.updateIn hcoerce hholds keeps hcondition hset hlinked

/-- `DELETE`. -/
theorem exec_delete (hholds : db.Holds name defn encode t.rows) {q : ρ → Bool} {found : Bool}
    {condition : Condition} {absent : Option (String × Condition)}
    (hfound : (absent.elim (.ok false) fun other => db.hasRow other.1 other.2) = .ok found)
    (hcondition : ∀ r ∈ t.rows, (condition.selects (defn.value (encode r)) && !found) = q r)
    (hrefers : db.schema.refersTo name = false) :
    ((Write.delete name condition absent).exec coerce db).toOption =
      some (db.put name ((t.delete q).rows.map encode)) := by
  have hrows : ((t.rows.map encode).filter fun row =>
      !(condition.selects (defn.value row) && !found)) = (t.delete q).rows.map encode := by
    rw [List.filter_map]
    exact congrArg (List.map encode) (List.filter_congr fun r hr => by
      rw [Function.comp_apply, hcondition r hr])
  rw [Write.exec_eq (.delete name condition absent) hholds.table (List.nil_subset _),
    Write.run, hfound]
  show (db.deleteFrom name _).toOption = _
  unfold Database.deleteFrom
  rw [hholds.rows, hrows, hrefers]
  rfl

end Encoding

section Upsert

variable {κ : Type u} [DecidableEq κ] {key : ρ → κ} {t : Table (Schema.keyed key)}
  {columns keyColumns : List String} {values : Row} {r : ρ} {g : ρ → ρ} {set : Assignments}

/-- An upsert on the only key of the table. -/
theorem Encoding.exec_upsert (h : Encoding (Schema.keyed key) defn encode)
    (hcoerce : Settled coerce) (hholds : db.Holds name defn encode t.rows)
    (keeps : ∀ a, key (g a) = key a) (hkeys : defn.keys = [keyColumns])
    (hcolumns : columns ++ keyColumns ++ set.map Prod.fst ⊆ defn.names)
    (hrow : defn.inserted columns values = encode r)
    (hset : ∀ a, key a = key r →
      defn.assigned set (defn.excluding (encode r) (encode a)) (encode a) = encode (g a))
    (hlinked : (set.any fun assignment => db.schema.linked name assignment.1) = false)
    (hrefs : ∀ rows, (db.put name rows).referencesHold defn [encode r] = true) :
    ((Write.upsert name columns values keyColumns set).exec coerce db).toOption =
      some (db.put name ((t.upsert r g keeps).rows.map encode)) := by
  have hsame : ∀ a, defn.sameKey keyColumns (encode a) (encode r) = decide (key a = key r) :=
    fun a => by
      rw [← Bool.or_false (defn.sameKey keyColumns (encode a) (encode r))]
      have hclash := h.clash a r
      rw [TableDef.clash, hkeys] at hclash
      exact hclash
  have hany : ((t.rows.map encode).any fun other => defn.sameKey keyColumns other (encode r)) =
      t.rows.any fun a => decide (key a = key r) := by
    rw [List.any_map]
    exact List.any_congr rfl hsame
  rw [Write.exec_eq (.upsert name columns values keyColumns set) hholds.table hcolumns,
    Write.run]
  simp only [hrow, h.stored hcoerce, hholds.rows, hany, h.present, h.allowed]
  unfold Table.upsert
  by_cases hexists : ∃ a ∈ t.rows, key a = key r
  · have htaken : t.insert r = none := (Table.insert_eq_none rfl).mpr (by
      simpa [Schema.keyed] using hexists)
    obtain ⟨after, hafter⟩ : ∃ after, t.update (fun a => decide (key a = key r)) g
      (Schema.keyed_keeps keeps) = some after := Table.update_isSome fun _ _ _ => rfl
    rw [if_pos (by simpa using hexists)]
    refine (h.updateIn hcoerce hholds (Schema.keyed_keeps keeps) (fun a _ => hsame a)
      (fun a _ ha => hset a (of_decide_eq_true ha)) hlinked).trans ?_
    rw [hafter, htaken]
    simp only [Option.orElse_none]
    rfl
  · obtain ⟨after, hafter⟩ := Table.insert_isSome (t := t) (r := r) rfl fun a ha =>
      decide_eq_false fun heq => hexists ⟨a, ha, heq⟩
    rw [if_neg (by simpa using hexists)]
    refine (h.insertInto hcoerce hholds hrefs).trans ?_
    rw [hafter]
    rfl

end Upsert

end Records

end Sql
