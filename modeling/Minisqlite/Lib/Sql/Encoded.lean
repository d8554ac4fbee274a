import Minisqlite.Lib.Sql.Rebuild
import Minisqlite.Lib.Sql.Select
import Minisqlite.Lib.Table

/-!
# Tables of records

A program keeps records of a type of its own in a table: a record is a row with a value in
each column.

* `Value.same_eq`: values of one storage class are the same exactly if they are equal.
* `select_plain`, `select_ordered`: a query on the rows of records, in terms of the records.
* `Holds`: the table has the rows of these records.
* `Encoding`: the constraints of the table say of two rows what a `Tables.Schema` says of
  their records. `Encoding.insertRow`: an INSERT is then that of the typed table;
  `Encoding.meets`: and what is in the typed table meets the definition.
-/

namespace Sql

universe u

/-! ## Storage classes -/

/-- `typeof`. -/
inductive Storage
  | null
  | integer
  | real
  | text
  | blob
deriving DecidableEq

namespace Value

def storage : Value → Storage
  | .null => .null
  | .integer _ => .integer
  | .real _ => .real
  | .text _ => .text
  | .blob _ => .blob

/-- An INTEGER, a TEXT or a BLOB. -/
def exact : Value → Bool
  | .integer _ | .text _ | .blob _ => true
  | .null | .real _ => false

theorem same_integer (m n : Int64) : (Value.integer m).same (.integer n) = decide (m = n) := by
  rw [Bool.eq_iff_iff, decide_eq_true_iff, same, Bool.and_eq_true, Bool.not_eq_true',
    Bool.not_eq_true', lt, lt, decide_eq_false_iff_not, decide_eq_false_iff_not, Int64.not_lt,
    Int64.not_lt]
  exact ⟨fun h => Int64.le_antisymm h.2 h.1, fun h => ⟨h ▸ Int64.le_refl m, h ▸ Int64.le_refl m⟩⟩

theorem lt_bytes (s t : List UInt8) : (!decide (s < t) && !decide (t < s)) = decide (s = t) := by
  rw [Bool.eq_iff_iff, decide_eq_true_iff, Bool.and_eq_true, Bool.not_eq_true', Bool.not_eq_true',
    decide_eq_false_iff_not, decide_eq_false_iff_not, List.not_lt, List.not_lt]
  exact ⟨fun h => Std.le_antisymm h.2 h.1, fun h => h ▸ ⟨Std.le_refl s, Std.le_refl s⟩⟩

/-- Such values of one storage class are the same exactly if they are equal. -/
theorem same_eq {v w : Value} {P : Prop} [Decidable P] (hP : v = w ↔ P)
    (h : v.storage = w.storage) (hexact : w.exact = true) : v.same w = decide P := by
  have hdecide : decide (v = w) = decide P := decide_eq_decide.mpr hP
  rw [← hdecide]
  cases v <;> cases w <;> cases h
  · cases hexact
  · simpa using same_integer _ _
  · cases hexact
  · exact (lt_bytes _ _).trans (by simp)
  · exact (lt_bytes _ _).trans (by simp)

theorem isNull_exact {v : Value} (h : v.exact = true) : v.isNull = false :=
  decide_eq_false fun hnull => by
    rw [hnull] at h
    cases h

end Value

/-! ## Queries on records -/

/-- `LIMIT` on records. -/
def cut {α : Type u} (limit : Option Int64) (rows : List α) : List α :=
  match limit with
  | none => rows
  | some limit => if limit < 0 then rows else rows.take limit.toInt.toNat

theorem limited_map {α : Type u} (f : α → Row) (limit : Option Int64) (records : List α) :
    limited limit (records.map f) = (cut limit records).map f := by
  unfold limited cut
  cases limit with
  | none => rfl
  | some limit =>
    simp only []
    split
    · rfl
    · exact List.map_take.symm

section Conditions

variable {row : String → Value}

/-- Two such values of one storage class. -/
theorem Condition.eval_eq {left right : Term} {v w : Value} {P : Prop} [Decidable P]
    (hleft : left.eval row = v) (hright : right.eval row = w) (hP : v = w ↔ P)
    (h : v.storage = w.storage) (hv : v.exact = true) (hw : w.exact = true) :
    eval row (.compare .eq left right) = some (decide P) := by
  subst hleft hright
  exact (eval_compare (Value.isNull_exact hv) (Value.isNull_exact hw)).trans
    (congrArg some (Value.same_eq hP h hw))

theorem Condition.selects_eq {condition : Condition} {p : Bool} (h : condition.eval row = some p) :
    condition.selects row = p := by
  rw [selects, h]
  cases p <;> rfl

/-- A WHERE with two conditions selects what both select. -/
theorem Condition.selects_and (left right : Condition) :
    (left.and right).selects row = (left.selects row && right.selects row) := by
  rw [selects, selects, selects, eval]
  generalize left.eval row = x, right.eval row = y
  rcases x with _ | _ | _ <;> rcases y with _ | _ | _ <;> rfl

end Conditions

section Select

variable {ρ : Type u} {db : Database} {source : Source} {columns : List String} {encode : ρ → Row}
  {records : List ρ} {names : List String} {condition : Option Condition} {limit : Option Int64}
  {p : ρ → Bool}

theorem filter_encode
    (hp : ∀ r ∈ records, condition.all (Condition.selects (valueOf columns (encode r))) = p r) :
    ((records.map encode).filter fun row =>
      condition.all (Condition.selects (valueOf columns row))) = (records.filter p).map encode := by
  rw [List.filter_map]
  exact congrArg (List.map encode) (List.filter_congr hp)

/-- A query on the rows of records, with a condition that says `p` of them. -/
theorem select_plain (h : db.source source = .ok ⟨columns, records.map encode⟩)
    (hp : ∀ r ∈ records, condition.all (Condition.selects (valueOf columns (encode r))) = p r) :
    db.select { names, source, condition, limit } =
      .ok ((cut limit (records.filter p)).map fun r => names.map (valueOf columns (encode r))) := by
  rw [Database.select, h]
  show Except.ok ((limited limit ((records.map encode).filter
    fun row => condition.all (Condition.selects (valueOf columns row)))).map _) = _
  rw [filter_encode hp, limited_map, List.map_map]
  rfl

/-- A SELECT with ORDER BY, whose order of the rows is `before` of the records. -/
theorem select_ordered {column : String} {direction : Direction} {before : ρ → ρ → Prop}
    [DecidableRel before] (h : db.source source = .ok ⟨columns, records.map encode⟩)
    (hp : ∀ r ∈ records, condition.all (Condition.selects (valueOf columns (encode r))) = p r)
    (hbefore : ∀ a b, direction.before (valueOf columns (encode a) column)
      (valueOf columns (encode b) column) ↔ before a b) :
    db.select { names, source, condition, order := some (column, direction), limit } =
      .ok ((cut limit ((records.filter p).insertionSort before)).map fun r =>
        names.map (valueOf columns (encode r))) := by
  rw [Database.select, h]
  show Except.ok ((limited limit (((records.map encode).filter
    fun row => condition.all (Condition.selects (valueOf columns row))).insertionSort _)).map _) = _
  rw [filter_encode hp,
    ← List.map_insertionSort before _ encode _ fun a _ b _ => (hbefore a b).symm,
    limited_map, List.map_map]
  rfl

end Select

section Holds

variable {ρ σ : Type u} {db : Database} {name other : String} {defn : TableDef}
  {encode : ρ → Row} {records : List ρ}

/-- The rows of the table are these records, in this order. -/
structure Database.Holds (db : Database) (name : String) (defn : TableDef) (encode : ρ → Row)
    (records : List ρ) : Prop where
  table : db.schema.table name = some defn
  rows : db.rows name = records.map encode

namespace Database.Holds

theorem relation (h : db.Holds name defn encode records) :
    db.relation name = some ⟨defn.names, records.map encode⟩ := by
  rw [Database.relation, h.table, h.rows]
  rfl

theorem source (h : db.Holds name defn encode records) :
    db.source (.table name) = .ok ⟨defn.names, records.map encode⟩ := by
  rw [Database.source, h.relation]
  rfl

/-- A join has the rows of the pairs of records. -/
theorem join {odefn : TableDef} {oencode : σ → Row} {others : List σ}
    {leftAlias rightAlias : String}
    (h : db.Holds name defn encode records) (hother : db.Holds other odefn oencode others) :
    db.source (.join name leftAlias other rightAlias) =
      .ok ⟨defn.names.map (fun column => leftAlias ++ "." ++ column) ++
          odefn.names.map (fun column => rightAlias ++ "." ++ column),
        (records.flatMap fun a => others.map fun b => (a, b)).map fun pair =>
          encode pair.1 ++ oencode pair.2⟩ := by
  rw [Database.source, h.relation, hother.relation]
  show Except.ok (Relation.product _ _ _ _) = _
  simp only [Relation.product, List.flatMap_map, List.map_map, List.map_flatMap]
  rfl

end Database.Holds

end Holds

/-! ## Constraints on records -/

/-- A value that needs no conversion for a column of this affinity. -/
def Affinity.fits : Affinity → Value → Bool
  | _, .null => true
  | .text, .text _ => true
  | .integer, .integer _ => true
  | .numeric, .integer _ => true
  | .real, .real _ => true
  | .blob, _ => true
  | _, _ => false

/-- Conversion leaves such values alone. -/
def Settled (coerce : Affinity → Value → Value) : Prop :=
  ∀ affinity v, affinity.fits v = true → coerce affinity v = v

theorem TableDef.stored_fits {coerce : Affinity → Value → Value} (hcoerce : Settled coerce)
    {columns : List Column} {row : Row}
    (h : List.Forall₂ (fun column v => column.affinity.fits v = true) columns row) :
    columns.zipWith (fun column v => coerce column.affinity v) row = row := by
  induction h with
  | nil => rfl
  | cons hv _ ih => rw [List.zipWith_cons_cons, hcoerce _ _ hv, ih]

/-- A row refers to a row of the parent that has its value. -/
theorem TableDef.refers_of_mem {defn parent : TableDef} {rows : List Row} {row other : Row}
    {name column parentColumn : String} {v : Value} (hvalue : defn.value row column = v)
    (hother : other ∈ rows) (hparent : parent.value other parentColumn = v)
    (hexact : v.exact = true) :
    defn.refers parent rows ⟨[column], name, [parentColumn]⟩ row = true := by
  have hsame : v.same v = true := (Value.same_eq Iff.rfl rfl hexact).trans (decide_eq_true rfl)
  rw [refers, Bool.or_eq_true, List.any_eq_true, List.any_eq_true]
  refine .inr ⟨other, hother, ?_⟩
  show ((defn.value row column).same (parent.value other parentColumn) && true) = true
  rw [hvalue, hparent, hsame]
  rfl

/-- References look only at the tables that they name. -/
theorem Database.referencesHold_congr {db db' : Database} {defn : TableDef} (rows : List Row)
    (hrows : db'.rows = db.rows)
    (hparents : ∀ key ∈ defn.foreignKeys,
      db'.schema.table key.parent = db.schema.table key.parent) :
    db'.referencesHold defn rows = db.referencesHold defn rows := by
  unfold referencesHold
  rw [hrows, Bool.eq_iff_iff, List.all_eq_true, List.all_eq_true]
  refine forall₂_congr fun key hkey => ?_
  rw [hparents key hkey]

/-- The constraints of the table are those of the records. -/
structure Encoding {ρ : Type u} (S : Tables.Schema ρ) (defn : TableDef) (encode : ρ → Row) :
    Prop where
  fits : ∀ r, List.Forall₂ (fun column v => column.affinity.fits v = true) defn.columns (encode r)
  present : ∀ r, defn.present (encode r) = true
  allowed : ∀ r, defn.allowed (encode r) = S.check r
  clash : ∀ a b, defn.clash (encode a) (encode b) = S.clash a b

namespace Encoding

open Tables

variable {ρ : Type u} {S : Tables.Schema ρ} {defn : TableDef} {encode : ρ → Row}
  {coerce : Affinity → Value → Value}

theorem stored (h : Encoding S defn encode) (hcoerce : Settled coerce) (r : ρ) :
    defn.stored coerce (encode r) = encode r :=
  TableDef.stored_fits hcoerce (h.fits r)

theorem width (h : Encoding S defn encode) (r : ρ) :
    (encode r).length = defn.columns.length :=
  (h.fits r).length_eq.symm

/-- What is in the typed table meets the definition. -/
theorem meets (h : Encoding S defn encode) (hcoerce : Settled coerce) (t : Table S) :
    defn.Meets coerce (t.rows.map encode) where
  width := List.forall_mem_map.mpr fun r _ => h.width r
  stored := List.forall_mem_map.mpr fun r _ => h.stored hcoerce r
  present := List.forall_mem_map.mpr fun r _ => h.present r
  allowed := List.forall_mem_map.mpr fun r hr => (h.allowed r).trans (t.checked r hr)
  unique := List.pairwise_map.mpr (t.unique.imp fun {a b} hab => (h.clash a b).trans hab)

/-- An INSERT of a record succeeds exactly if the typed one does, with the same rows. -/
theorem insertRow (h : Encoding S defn encode) (hcoerce : Settled coerce) (t : Table S) (r : ρ) :
    (Sql.insertRow coerce defn (t.rows.map encode) (encode r)).toOption =
      (t.insert r).map fun after => after.rows.map encode := by
  have hany : ((t.rows.map encode).any fun other => defn.clash other (encode r)) =
      t.rows.any fun other => S.clash other r := by
    rw [List.any_map]
    exact congrArg (List.any t.rows) (funext fun other => h.clash other r)
  unfold Sql.insertRow Table.insert
  rw [if_neg (not_not.mpr (h.width r)), h.stored hcoerce, h.present, h.allowed, hany]
  by_cases hcheck : S.check r = true
  · by_cases hfree : ∀ a ∈ t.rows, S.clash a r = false
    · have hnone : (t.rows.any fun other => S.clash other r) = false :=
        List.any_eq_false.mpr fun a ha => by simp [hfree a ha]
      rw [dif_pos ⟨hcheck, hfree⟩]
      simp [hcheck, hnone, Except.toOption]
    · have hsome : (t.rows.any fun other => S.clash other r) = true := by
        simpa using hfree
      rw [dif_neg fun hboth => hfree hboth.2]
      simp [hcheck, hsome, Except.toOption]
  · rw [dif_neg fun hboth => hcheck hboth.1]
    simp [hcheck, Except.toOption]

end Encoding

/-! ## An empty database -/

/-- `CREATE TABLE` and `CREATE INDEX`. -/
def Statement.creates : Statement → Bool
  | .createTable .. | .createIndex _ => true
  | _ => false

/-- Such statements put no row anywhere, and fail only in what they define. -/
theorem execBatch_creates {coerce : Affinity → Value → Value} {batch : List Statement}
    (h : ∀ statement ∈ batch, statement.creates = true) (schema : Schema) :
    execBatch coerce batch ⟨schema, fun _ => []⟩ =
      (defineAll batch schema).map fun after => ⟨after, fun _ => []⟩ := by
  induction batch generalizing schema with
  | nil => rfl
  | cons statement batch ih =>
    have hfill : statement.fill coerce ⟨schema, fun _ => []⟩ = .ok fun _ => [] := by
      cases statement with
      | createTable name => exact congrArg Except.ok (Function.update_eq_self name _)
      | createIndex => rfl
      | _ => cases h _ List.mem_cons_self
    have hrest : ∀ after, execBatch coerce batch ⟨after, fun _ => []⟩ = _ :=
      ih fun other hother => h other (List.mem_cons_of_mem _ hother)
    unfold execBatch defineAll at *
    rw [List.foldlM_cons, List.foldlM_cons, Statement.exec, hfill]
    cases statement.define schema with
    | error e => rfl
    | ok after => exact hrest after

end Sql
