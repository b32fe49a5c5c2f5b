import QueryPlans.Scalar

/-!
# Row — flat rows, and what can go wrong in reading them

A row is read by column position.  Every fault of a consumption is a cause of `ReadError`; a column
that a row does not have is one of them.
-/

namespace QueryPlans

/-- Why a consumption of rows ended early. -/
inductive ReadError where
  | cancelled
  /-- The source could not serve a row. -/
  | sourceFailed (reason : String)
  | columnOutOfRange (column width : Nat)
  /-- A row has no value for the root level. -/
  | rootAbsent
  /-- A row has values below a level without any for the level itself. -/
  | entityAbsent (label : String)
  /-- A single-valued navigation has this many entities. -/
  | severalEntities (label : String) (count : Nat)
  /-- A single-valued navigation has a second entity. -/
  | secondEntity (label : String)
  /-- An entity came back after another of its level. -/
  | entityReappeared (label : String)
  /-- A navigation came back after a later one of its entity. -/
  | navigationResumed (label : String)
  | groupTooLarge (limit : Nat)
  /-- The consumer had failed before. -/
  | usedAfterFailure
deriving DecidableEq

/-- The text of a fault. -/
def ReadError.message : ReadError → String
  | cancelled => "operation cancelled"
  | sourceFailed reason => "row source failed: " ++ reason
  | columnOutOfRange column width =>
    "result shape mismatch: column " ++ toString column ++ " out of range for row of width " ++
      toString width
  | rootAbsent => "result shape mismatch: row carries no root entity"
  | entityAbsent label =>
    "result shape mismatch: row carries descendants of '" ++ label ++ "' without its entity"
  | severalEntities label count =>
    "result shape mismatch: single-valued navigation '" ++ label ++ "' yielded " ++
      toString count ++ " entities"
  | secondEntity label =>
    "result shape mismatch: single-valued navigation '" ++ label ++ "' yielded a second entity"
  | entityReappeared label =>
    "row order violation: entity of '" ++ label ++ "' reappeared after a different entity"
  | navigationResumed label =>
    "row order violation: navigation '" ++ label ++ "' resumed after it was closed"
  | groupTooLarge limit => "root group exceeds " ++ toString limit ++ " buffered rows"
  | usedAfterFailure => "invalid argument: event reader used after a failure"

/-- A flat row of scalars; absent levels leave their columns null. -/
structure Row where
  cells : List Scalar
deriving DecidableEq

namespace Row

/-- How many columns the row has. -/
def width (row : Row) : Nat := row.cells.length

/-- The scalar in a column, if the row is wide enough. -/
def get? (row : Row) (column : Nat) : Option Scalar := row.cells[column]?

/-- The value of a column that the row has to have. -/
def column (row : Row) (column : Nat) : Except ReadError Scalar :=
  match row.get? column with
  | some v => .ok v
  | none => .error (.columnOutOfRange column row.width)

/-- Equality as clients see it, under which a not-a-number differs from itself. -/
def equals (a b : Row) : Bool :=
  a.width == b.width && (a.cells.zip b.cells).all fun (x, y) => x.equals y

/-- Whether one of the columns has a value.  Columns behind the first value are not read. -/
def anyPresent (row : Row) : List Nat → Except ReadError Bool
  | [] => .ok false
  | column :: rest => do
    if (← row.column column).isNull then row.anyPresent rest else .ok true

/-- Whether two rows have identical values in the columns.  Columns behind the first difference are
not read. -/
def sameIn (a b : Row) : List Nat → Except ReadError Bool
  | [] => .ok true
  | column :: rest => do
    if (← a.column column).same (← b.column column) then a.sameIn b rest else .ok false

/-! ## Rows that are wide enough -/

theorem column_of_lt {row : Row} {column : Nat} (h : column < row.width) :
    row.column column = .ok (row.cells.get ⟨column, h⟩) := by
  simp [Row.column, get?, List.getElem?_eq_getElem (show column < row.cells.length from h)]

end Row

end QueryPlans
