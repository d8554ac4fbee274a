import Mathlib.Data.List.Sort
import Minisqlite.Lib.Sql.Statements

/-!
# Queries

`SELECT` on a table or on the join of two. The rows that a condition selects are sorted,
cut and projected, in that order. A query sees the definitions of a database only
through its relations (`select_congr`).
-/

namespace Sql

/-- Where a query takes its rows from. The columns of a join have the alias of their table
before their name. -/
inductive Source
  | table (name : String)
  | join (left leftAlias right rightAlias : String)

inductive Direction
  | ascending
  | descending
deriving DecidableEq

structure Select where
  names : List String
  source : Source
  condition : Option Condition := none
  order : Option (String × Direction) := none
  limit : Option Int64 := none

def Relation.qualified (relation : Relation) (prefixed : String) : List String :=
  relation.names.map fun name => prefixed ++ "." ++ name

/-- All pairs of rows, the left one in the outer loop. -/
def Relation.product (left right : Relation) (leftAlias rightAlias : String) : Relation where
  names := left.qualified leftAlias ++ right.qualified rightAlias
  rows := left.rows.flatMap fun a => right.rows.map fun b => a ++ b

def Database.source (db : Database) : Source → Except String Relation
  | .table name => (db.relation name).elim (.error s!"no such table: {name}") .ok
  | .join left leftAlias right rightAlias => do
    let a ← (db.relation left).elim (.error s!"no such table: {left}") .ok
    let b ← (db.relation right).elim (.error s!"no such table: {right}") .ok
    .ok (a.product b leftAlias rightAlias)

/-- `ORDER BY`: `a` may stand before `b`. -/
def Direction.before (direction : Direction) (a b : Value) : Prop :=
  match direction with
  | .ascending => b.lt a = false
  | .descending => a.lt b = false

instance (direction : Direction) (a b : Value) : Decidable (direction.before a b) := by
  unfold Direction.before
  cases direction <;> infer_instance

/-- `LIMIT`; a negative one is none. -/
def limited (limit : Option Int64) (rows : List Row) : List Row :=
  match limit with
  | none => rows
  | some limit => if limit < 0 then rows else rows.take limit.toInt.toNat

/-- The rows of the result. -/
def Database.select (db : Database) (query : Select) : Except String (List Row) := do
  let relation ← db.source query.source
  let value := valueOf relation.names
  let selected := relation.rows.filter fun row =>
    query.condition.all (Condition.selects (value row))
  let ordered := match query.order with
    | none => selected
    | some (name, direction) =>
      selected.insertionSort fun a b => direction.before (value a name) (value b name)
  .ok ((limited query.limit ordered).map fun row => query.names.map (value row))

/-- Databases with the same relations give the same answers. -/
theorem select_congr {db db' : Database} (h : db'.relation = db.relation) :
    db'.select = db.select := by
  have hsource : db'.source = db.source := by
    funext source
    cases source with
    | table name => rw [Database.source, Database.source, h]
    | join => rw [Database.source, Database.source, h]
  funext query
  rw [Database.select, Database.select, hsource]

end Sql
