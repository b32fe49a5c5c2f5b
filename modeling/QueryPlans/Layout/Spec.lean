import QueryPlans.Layout.Basic

/-!
# Layout/Spec — layouts from descriptions of their levels

A description gives each level its properties, its keys and the levels below it.  Placing it numbers
the levels in preorder and checks, level by level, that each owns a column, that no column has two
owners and that no name is used for two navigations of one level.  Continuation columns count only
where they are declared for the root.  Columns are words, and so is the width of a layout: where the
greatest column has no successor, it depends on the arithmetic what becomes of it.
-/

namespace QueryPlans

/-- The description of a level. -/
inductive LevelSpec where
  | mk (properties : List PropertyColumn) (keyColumns : List Nat)
    (navigations : List (String × Cardinality × LevelSpec))
    (continuation : List ContinuationColumn)

namespace LevelSpec

/-! ## Descriptions -/

/-- A level that declares nothing yet. -/
def empty : LevelSpec := mk [] [] [] []

/-- Adds a property. -/
def property (name : String) (column : Nat) : LevelSpec → LevelSpec
  | mk properties keys navigations continuation =>
    mk (properties ++ [⟨name, column⟩]) keys navigations continuation

/-- Adds a key column that is no property. -/
def hiddenKey (column : Nat) : LevelSpec → LevelSpec
  | mk properties keys navigations continuation =>
    mk properties (keys ++ [column]) navigations continuation

/-- Adds a property that is part of the key. -/
def key (name : String) (column : Nat) (spec : LevelSpec) : LevelSpec :=
  (spec.hiddenKey column).property name column

/-- Adds a navigation whose entities the target describes. -/
def navigation (spec : LevelSpec) (name : String) (cardinality : Cardinality)
    (target : LevelSpec) : LevelSpec :=
  match spec with
  | mk properties keys navigations continuation =>
    mk properties keys (navigations ++ [(name, cardinality, target)]) continuation

/-- Adds a value of the continuation. -/
def continueBy (column : ContinuationColumn) : LevelSpec → LevelSpec
  | mk properties keys navigations continuation =>
    mk properties keys navigations (continuation ++ [column])

/-- The columns that a description continues by. -/
def continuation : LevelSpec → List ContinuationColumn
  | mk _ _ _ continuation => continuation

end LevelSpec

/-! ## Faults -/

/-- What keeps a description from having a layout. -/
inductive LayoutError where
  | noColumns (label : String)
  | sharedColumn (column : Nat) (label : String)
  | repeatedNavigation (name label : String)
  | emptyContinuationPath (property : String)
  /-- The greatest column has no successor.  This is no error that is returned: it ends the run. -/
  | widthOverflow
deriving DecidableEq

/-- The text of a fault. -/
def LayoutError.message : LayoutError → String
  | noColumns label => "invalid argument: level '" ++ label ++ "' owns no columns"
  | sharedColumn column label =>
    "invalid argument: column " ++ toString column ++ " of level '" ++ label ++
      "' is owned by another level"
  | repeatedNavigation name label =>
    "invalid argument: navigation '" ++ name ++ "' declared twice under '" ++ label ++ "'"
  | emptyContinuationPath property =>
    "invalid argument: skip token accessor '" ++ property ++ "' has an empty path"
  | widthOverflow => "attempt to add with overflow"

/-! ## Columns in order -/

/-- Inserts into an ordered list, in front of what is not smaller. -/
def insertSorted (column : Nat) : List Nat → List Nat
  | [] => [column]
  | c :: rest => if column ≤ c then column :: c :: rest else c :: insertSorted column rest

/-- The columns in order, each as often as it was there. -/
def sortColumns (columns : List Nat) : List Nat := columns.foldr insertSorted []

/-- Inserts into an ordered list unless the column is there. -/
def insertColumn (column : Nat) : List Nat → List Nat
  | [] => [column]
  | c :: rest =>
    if column < c then column :: c :: rest
    else if column = c then c :: rest
    else c :: insertColumn column rest

/-- The columns in order, each once. -/
def columnSet (columns : List Nat) : List Nat := columns.foldr insertColumn []

/-- The first name that stood earlier in the list. -/
def firstRepeated? (seen : List String) : List String → Option String
  | [] => none
  | name :: rest => if seen.contains name then some name else firstRepeated? (name :: seen) rest

/-! ## Placing -/

/-- What has been placed so far. -/
structure Placed where
  next : Nat
  owned : List Nat

/-- The faults of one level, apart from those of the levels below it. -/
def checkLevel (label : String) (columns owned : List Nat) (names : List String) :
    Except LayoutError Unit :=
  if columns.isEmpty then .error (.noColumns label)
  else
    match columns.find? owned.contains with
    | some column => .error (.sharedColumn column label)
    | none =>
      match firstRepeated? [] names with
      | some name => .error (.repeatedNavigation name label)
      | none => .ok ()

mutual

/-- The level of a description, at the next free index. -/
def LevelSpec.place (role : Role) (parent : Option Nat) (depth : Nat) :
    LevelSpec → Placed → Except LayoutError (Level × Placed)
  | .mk properties keyColumns navigations _, placed => do
    let columns := columnSet (properties.map PropertyColumn.column ++ keyColumns)
    checkLevel role.label columns placed.owned (navigations.map Prod.fst)
    let index := placed.next
    let (children, placed) ←
      placeNavigations index (depth + 1) navigations ⟨index + 1, placed.owned ++ columns⟩
    let below := children.flatMap fun child => child.info.subtreeColumns
    let subtreeColumns := sortColumns (columns ++ below)
    let info : LevelInfo :=
      { index, role, properties, keyColumns, columns, subtreeColumns, parent, depth }
    return (.mk info children, placed)

/-- The levels of several navigations in order. -/
def placeNavigations (parent depth : Nat) :
    List (String × Cardinality × LevelSpec) → Placed → Except LayoutError (List Level × Placed)
  | [], placed => return ([], placed)
  | (name, cardinality, target) :: rest, placed => do
    let (level, placed) ← target.place (.navigation name cardinality) (some parent) depth placed
    let (levels, placed) ← placeNavigations parent depth rest placed
    return (level :: levels, placed)

end

/-! ## Widths -/

/-- The greatest word of 64 bits. -/
def greatestWord : Nat := UInt64.size - 1

/-- How words are added: a sum that is no word is a fault, or it wraps around. -/
inductive Arithmetic where
  | checked
  | wrapping
deriving DecidableEq

namespace Arithmetic

/-- One more than a word. -/
def successor (arithmetic : Arithmetic) (word : Nat) : Except LayoutError Nat :=
  match arithmetic with
  | checked => if word < greatestWord then .ok (word + 1) else .error .widthOverflow
  | wrapping => .ok ((word + 1) % (greatestWord + 1))

/-- One more than the greatest column, or zero. -/
def widthOf (arithmetic : Arithmetic) (columns : List Nat) : Except LayoutError Nat :=
  match columns.max? with
  | none => .ok 0
  | some greatest => arithmetic.successor greatest

end Arithmetic

namespace LevelSpec

/-- **The layout of a description**, by an arithmetic. -/
def layoutWith (arithmetic : Arithmetic) (spec : LevelSpec) : Except LayoutError Layout := do
  let (root, _) ← spec.place .root none 0 ⟨0, []⟩
  match spec.continuation.find? fun column => column.path.isEmpty with
  | some column => .error (.emptyContinuationPath column.property)
  | none =>
    let owned := root.preorder.flatMap fun level => level.info.columns
    let read := spec.continuation.map ContinuationColumn.column
    let width ← arithmetic.widthOf (owned ++ read)
    return ⟨root, spec.continuation, width⟩

/-- **The layout of a description** whose columns all have successors. -/
def layout (spec : LevelSpec) : Except LayoutError Layout := spec.layoutWith .checked

end LevelSpec

end QueryPlans
