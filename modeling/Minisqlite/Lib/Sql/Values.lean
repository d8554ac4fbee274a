import Mathlib.Algebra.Order.Ring.Rat
import Mathlib.Data.Rat.Cast.Order
import Mathlib.Order.WithBot

/-!
# Values and conditions of SQL

The five storage classes of SQLite in their order, and the conditions on a row, which are
true, false or, where a NULL is involved, neither. A condition names the columns that it
reads; a row is known here by the values of its columns.

An INTEGER and a REAL compare as the numbers that they are. A REAL is a rational number or
an infinity. Texts compare by their bytes, as under the collation BINARY.
-/

namespace Sql

/-- The value of a REAL. -/
abbrev Number := WithBot (WithTop ℚ)

def Number.ofInt (n : Int64) : Number := ((n.toInt : ℚ) : WithTop ℚ)

inductive Value
  | null
  | integer (n : Int64)
  | real (x : Number)
  | text (utf8 : List UInt8)
  | blob (bytes : List UInt8)
deriving DecidableEq

namespace Value

/-- NULL comes first, then the numbers, the texts and the BLOBs. -/
def lt : Value → Value → Bool
  | .null, .null => false
  | .null, _ => true
  | _, .null => false
  | .integer m, .integer n => decide (m < n)
  | .integer m, .real y => decide (Number.ofInt m < y)
  | .real x, .integer n => decide (x < Number.ofInt n)
  | .real x, .real y => decide (x < y)
  | .integer _, _ => true
  | .real _, _ => true
  | .text s, .text t => decide (s < t)
  | .text _, .blob _ => true
  | .blob b, .blob c => decide (b < c)
  | _, _ => false

/-- Two values are the same for SQL if neither is less than the other. -/
def same (v w : Value) : Bool := !v.lt w && !w.lt v

def isNull (v : Value) : Bool := decide (v = .null)

end Value

/-- A column, a literal or a bound parameter. -/
inductive Term
  | column (name : String)
  | value (v : Value)
deriving DecidableEq

/-- `=`, `<`, `<=`, `>` and `>=`. -/
inductive Comparison
  | eq
  | lt
  | le
  | gt
  | ge
deriving DecidableEq

inductive Condition
  | compare (op : Comparison) (left right : Term)
  | isNull (term : Term)
  | and (left right : Condition)
  | or (left right : Condition)
  | not (condition : Condition)
  /-- `(left) = (right)`, of two truth values. -/
  | iff (left right : Condition)
deriving DecidableEq

def Term.eval (row : String → Value) : Term → Value
  | .column name => row name
  | .value v => v

def Comparison.holds (v w : Value) : Comparison → Bool
  | .eq => v.same w
  | .lt => v.lt w
  | .le => !w.lt v
  | .gt => w.lt v
  | .ge => !v.lt w

namespace Condition

/-- A comparison with NULL is neither true nor false. -/
def eval (row : String → Value) : Condition → Option Bool
  | .compare op left right =>
    if (left.eval row).isNull || (right.eval row).isNull then none
    else some (op.holds (left.eval row) (right.eval row))
  | .isNull term => some (term.eval row).isNull
  | .and left right =>
    match left.eval row, right.eval row with
    | some false, _ | _, some false => some false
    | some true, some true => some true
    | _, _ => none
  | .or left right =>
    match left.eval row, right.eval row with
    | some true, _ | _, some true => some true
    | some false, some false => some false
    | _, _ => none
  | .not condition => (condition.eval row).map Bool.not
  | .iff left right =>
    match left.eval row, right.eval row with
    | some p, some q => some (p == q)
    | _, _ => none

/-- `term IS NOT NULL`. -/
def notNull (term : Term) : Condition := .not (.isNull term)

/-- `term BETWEEN low AND high`. -/
def between (term low high : Term) : Condition :=
  .and (.compare .ge term low) (.compare .le term high)

/-- `term IN (v, …)`. -/
def isIn (term : Term) (v : Value) (rest : List Value) : Condition :=
  rest.foldl (fun condition w => .or condition (.compare .eq term (.value w)))
    (.compare .eq term (.value v))

/-- `left <> right`. -/
def ne (left right : Term) : Condition := .not (.compare .eq left right)

/-- A CHECK is broken by what is false, and only by that. -/
def allows (row : String → Value) (condition : Condition) : Bool :=
  condition.eval row != some false

/-- A WHERE selects what is true. -/
def selects (row : String → Value) (condition : Condition) : Bool :=
  condition.eval row == some true

/-! Conditions that are true or false. -/

section Decided

variable {row : String → Value} {left right condition : Condition} {p q : Bool}

theorem eval_compare {op : Comparison} {v w : Term} (hv : (v.eval row).isNull = false)
    (hw : (w.eval row).isNull = false) :
    eval row (.compare op v w) = some (op.holds (v.eval row) (w.eval row)) := by
  simp [eval, hv, hw]

theorem eval_and (hleft : left.eval row = some p) (hright : right.eval row = some q) :
    (left.and right).eval row = some (p && q) := by
  rw [eval, hleft, hright]
  cases p <;> cases q <;> rfl

theorem eval_or (hleft : left.eval row = some p) (hright : right.eval row = some q) :
    (left.or right).eval row = some (p || q) := by
  rw [eval, hleft, hright]
  cases p <;> cases q <;> rfl

theorem eval_not (h : condition.eval row = some p) : condition.not.eval row = some !p := by
  rw [eval, h]
  rfl

theorem eval_iff (hleft : left.eval row = some p) (hright : right.eval row = some q) :
    (left.iff right).eval row = some (p == q) := by
  rw [eval, hleft, hright]

theorem eval_isNull (term : Term) : eval row (.isNull term) = some (term.eval row).isNull := rfl

theorem eval_notNull (term : Term) : eval row (notNull term) = some !(term.eval row).isNull := rfl

theorem allows_eq (h : condition.eval row = some p) : condition.allows row = p := by
  rw [allows, h]
  cases p <;> rfl

end Decided

end Condition

end Sql
