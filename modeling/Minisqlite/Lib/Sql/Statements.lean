import Mathlib.Data.List.AList
import Mathlib.Logic.Function.Basic
import Minisqlite.Lib.Sql.Values

/-!
# Tables and the statements that change them

A database has definitions of tables and indexes, and for each table its rows in the order
of a full scan. A statement works on both: `define` is what it makes of the
definitions, `fill` what it makes of the rows.

What SQLite makes of a value on its way into a column, `coerce`, is a parameter. A table
to which others refer can neither be dropped nor renamed here.
-/

namespace Sql

abbrev Row := List Value

/-- The type of a column, which is only a preference. -/
inductive Affinity
  | text
  | numeric
  | integer
  | real
  | blob
deriving DecidableEq

structure Column where
  name : String
  affinity : Affinity
  notNull : Bool
deriving DecidableEq

structure ForeignKey where
  columns : List String
  parent : String
  parentColumns : List String
deriving DecidableEq

/-- `CREATE TABLE`. The PRIMARY KEY is one of the `keys`, which are UNIQUE. -/
structure TableDef where
  columns : List Column
  keys : List (List String)
  checks : List Condition
  foreignKeys : List ForeignKey
deriving DecidableEq

/-- `CREATE INDEX`. -/
structure Index where
  name : String
  table : String
  columns : List String
deriving DecidableEq

/-- The value under a name. -/
def valueOf (names : List String) (row : Row) (name : String) : Value :=
  ((names.zip row).lookup name).getD .null

namespace TableDef

variable (defn : TableDef)

def names : List String := defn.columns.map Column.name

def value (row : Row) : String → Value := valueOf defn.names row

/-- What is stored for the values of a row. -/
def stored (coerce : Affinity → Value → Value) (row : Row) : Row :=
  defn.columns.zipWith (fun column v => coerce column.affinity v) row

/-- The NOT NULL constraints. -/
def present (row : Row) : Bool :=
  defn.columns.all fun column => !column.notNull || !(defn.value row column.name).isNull

/-- The CHECK constraints. -/
def allowed (row : Row) : Bool := defn.checks.all (Condition.allows (defn.value row))

/-- Two rows have the same key. A key with a NULL is like no other. -/
def clash (a b : Row) : Bool :=
  defn.keys.any fun key => key.all fun name =>
    !(defn.value a name).isNull && (defn.value a name).same (defn.value b name)

/-- The row has a parent among the rows of that table, unless it names none. -/
def refers (parent : TableDef) (rows : List Row) (key : ForeignKey) (row : Row) : Bool :=
  key.columns.any (fun name => (defn.value row name).isNull) ||
    rows.any fun other => (key.columns.zip key.parentColumns).all fun names =>
      (defn.value row names.1).same (parent.value other names.2)

end TableDef

/-! ## Databases -/

structure Schema where
  tables : AList fun _ : String => TableDef
  indexes : List Index

namespace Schema

variable (schema : Schema)

def table (name : String) : Option TableDef := schema.tables.lookup name

/-- Some table refers to this one. -/
def refersTo (name : String) : Bool :=
  schema.tables.entries.any fun entry => entry.2.foreignKeys.any fun key => key.parent = name

def empty : Schema := ⟨∅, []⟩

end Schema

structure Database where
  schema : Schema
  rows : String → List Row

/-- What a query sees of a table. -/
structure Relation where
  names : List String
  rows : List Row
deriving DecidableEq

namespace Database

def empty : Database := ⟨.empty, fun _ => []⟩

variable (db : Database)

def relation (name : String) : Option Relation :=
  (db.schema.table name).map fun defn => ⟨defn.names, db.rows name⟩

/-- The foreign keys of a table with these rows. -/
def referencesHold (defn : TableDef) (rows : List Row) : Bool :=
  defn.foreignKeys.all fun key =>
    match db.schema.table key.parent with
    | none => false
    | some parent => rows.all (defn.refers parent (db.rows key.parent) key)

end Database

/-! ## Statements -/

inductive Statement
  | createTable (name : String) (defn : TableDef)
  | createIndex (index : Index)
  /-- `INSERT INTO target SELECT * FROM source`. -/
  | insertAll (target source : String)
  | dropTable (name : String)
  | renameTable (old new : String)

section Insert

variable (coerce : Affinity → Value → Value) (defn : TableDef)

/-- One row, after the rows that are there. -/
def insertRow (rows : List Row) (row : Row) : Except String (List Row) :=
  if row.length ≠ defn.columns.length then
    .error s!"table has {defn.columns.length} columns but {row.length} values were supplied"
  else if ¬ defn.present (defn.stored coerce row) then .error "NOT NULL constraint failed"
  else if ¬ defn.allowed (defn.stored coerce row) then .error "CHECK constraint failed"
  else if rows.any fun other => defn.clash other (defn.stored coerce row) then
    .error "UNIQUE constraint failed"
  else .ok (rows ++ [defn.stored coerce row])

end Insert

namespace Statement

/-- What the statement makes of the definitions. -/
def define (schema : Schema) : Statement → Except String Schema
  | .createTable name defn =>
    if (schema.table name).isSome then .error s!"table {name} already exists"
    else .ok { schema with tables := schema.tables.insert name defn }
  | .createIndex index =>
    if index.name ∈ schema.indexes.map Index.name then
      .error s!"index {index.name} already exists"
    else match schema.table index.table with
      | none => .error s!"no such table: {index.table}"
      | some defn =>
        if index.columns ⊆ defn.names then
          .ok { schema with indexes := schema.indexes ++ [index] }
        else .error "no such column"
  | .insertAll target source =>
    if (schema.table target).isNone then .error s!"no such table: {target}"
    else if (schema.table source).isNone then .error s!"no such table: {source}"
    else .ok schema
  | .dropTable name =>
    if (schema.table name).isNone then .error s!"no such table: {name}"
    else if schema.refersTo name then .error "FOREIGN KEY constraint failed"
    else .ok
      { tables := schema.tables.erase name
        indexes := schema.indexes.filter fun index => index.table ≠ name }
  | .renameTable old new =>
    match schema.table old with
    | none => .error s!"no such table: {old}"
    | some defn =>
      if (schema.table new).isSome then
        .error s!"there is already another table or index with this name: {new}"
      else if schema.refersTo old then .error s!"error in a reference to {old}"
      else .ok
        { tables := (schema.tables.erase old).insert new defn
          indexes := schema.indexes.map fun index =>
            if index.table = old then { index with table := new } else index }

/-- What it makes of the rows. The references of the rows inserted are looked at last. -/
def fill (coerce : Affinity → Value → Value) (db : Database) :
    Statement → Except String (String → List Row)
  | .createTable name _ => .ok (Function.update db.rows name [])
  | .createIndex _ => .ok db.rows
  | .insertAll target source =>
    match db.schema.table target with
    | none => .error s!"no such table: {target}"
    | some defn => do
      let rows ← (db.rows source).foldlM (insertRow coerce defn) (db.rows target)
      let after := { db with rows := Function.update db.rows target rows }
      if after.referencesHold defn rows then .ok after.rows
      else .error "FOREIGN KEY constraint failed"
  | .dropTable name => .ok (Function.update db.rows name [])
  | .renameTable old new =>
    .ok (Function.update (Function.update db.rows new (db.rows old)) old [])

def exec (coerce : Affinity → Value → Value) (db : Database) (statement : Statement) :
    Except String Database := do
  let schema ← statement.define db.schema
  let rows ← statement.fill coerce db
  .ok ⟨schema, rows⟩

end Statement

/-- `execute_batch`. -/
def execBatch (coerce : Affinity → Value → Value) (batch : List Statement) (db : Database) :
    Except String Database :=
  batch.foldlM (Statement.exec coerce) db

/-- What a batch makes of the definitions. -/
def defineAll (batch : List Statement) (schema : Schema) : Except String Schema :=
  batch.foldlM Statement.define schema

end Sql
