import QueryPlans.Row

/-!
# Layout/Basic — which columns of a row belong to which level

A layout is a tree of levels, the root entity at its top and a level for each navigation below.  A
level owns columns that no other level owns; it is present on a row that has a value in one of them.
Two rows carry one entity of a level when its key columns say so; rows without a key are compared in
all columns of the level.
-/

namespace QueryPlans

/-- How many entities a navigation may have. -/
inductive Cardinality where
  | single
  | collection
deriving DecidableEq

/-- A property and the column that it is read from. -/
structure PropertyColumn where
  name : String
  column : Nat
deriving DecidableEq

/-- A value of the continuation: the path leads over navigations to the property that shows it. -/
structure ContinuationColumn where
  property : String
  path : List String
  column : Nat
deriving DecidableEq

/-- What a level is for. -/
inductive Role where
  | root
  | navigation (name : String) (cardinality : Cardinality)
deriving DecidableEq

namespace Role

/-- The name of the navigation that leads to a level. -/
def name? : Role → Option String
  | root => none
  | navigation name _ => some name

/-- How many entities the navigation may have that leads to a level. -/
def cardinality? : Role → Option Cardinality
  | root => none
  | navigation _ cardinality => some cardinality

/-- The name of a level in messages and results. -/
def label (role : Role) : String := role.name?.getD "$root"

/-- Whether the navigation to a level has one entity at most. -/
def isSingle (role : Role) : Bool := role.cardinality? == some .single

end Role

/-- A level without the levels below it. -/
structure LevelInfo where
  /-- The position among all levels, each before those below it. -/
  index : Nat
  role : Role
  properties : List PropertyColumn
  keyColumns : List Nat
  /-- The columns of the level in order, each once. -/
  columns : List Nat
  /-- The columns of the level and of all levels below it, in order. -/
  subtreeColumns : List Nat
  parent : Option Nat
  depth : Nat
deriving DecidableEq

/-- A level with the levels right below it. -/
inductive Level where
  | mk (info : LevelInfo) (children : List Level)

namespace Level

/-- A level without what lies below it. -/
def info : Level → LevelInfo
  | mk info _ => info

/-- The levels right below, one for each navigation. -/
def children : Level → List Level
  | mk _ children => children

/-- The position among all levels. -/
def index (level : Level) : Nat := level.info.index

/-- The name of the level in messages. -/
def label (level : Level) : String := level.info.role.label

mutual

/-- The level and all below it, each before those below it. -/
def preorder : Level → List Level
  | mk info children => mk info children :: preorderAll children

/-- The levels of several trees, tree by tree. -/
def preorderAll : List Level → List Level
  | [] => []
  | level :: rest => level.preorder ++ preorderAll rest

end

end Level

/-! ## Presence and identity -/

namespace LevelInfo

/-- Whether the row has a value at the level. -/
def isPresent (level : LevelInfo) (row : Row) : Except ReadError Bool :=
  row.anyPresent level.columns

/-- Whether the row has a value at the level or below it. -/
def isSubtreePresent (level : LevelInfo) (row : Row) : Except ReadError Bool :=
  row.anyPresent level.subtreeColumns

/-- Whether the row has a value in a key column, which is what tells its entity from others. -/
def hasKey (level : LevelInfo) (row : Row) : Except ReadError Bool :=
  row.anyPresent level.keyColumns

/-- **Whether two rows carry one entity of the level.** -/
def sameEntity (level : LevelInfo) (a b : Row) : Except ReadError Bool := do
  let keyed ← level.hasKey a
  if keyed != (← level.hasKey b) then return false
  a.sameIn b (if keyed then level.keyColumns else level.columns)

/-- The properties that a row gives an entity of the level. -/
def read (level : LevelInfo) (row : Row) : Except ReadError (List (String × Scalar)) :=
  level.properties.mapM fun property => return (property.name, ← row.column property.column)

end LevelInfo

/-! ## Layouts -/

/-- How the levels of a result share the columns of its rows. -/
structure Layout where
  root : Level
  continuation : List ContinuationColumn
  /-- How wide a row has to be for every column of the layout. -/
  width : Nat

namespace Layout

/-- All levels, each at the position of its index. -/
def levels (layout : Layout) : List Level := layout.root.preorder

/-- The names on the way up from a level; the first argument bounds the number of steps. -/
def namesUpward (layout : Layout) : Nat → Nat → List String
  | 0, _ => []
  | bound + 1, index =>
    match layout.levels[index]? with
    | none => []
    | some level =>
      level.info.role.name?.toList ++
        (level.info.parent.elim [] fun parent => layout.namesUpward bound parent)

/-- **The navigations that lead from the root to a level.** -/
def navigationPath (layout : Layout) (index : Nat) : List String :=
  (layout.namesUpward layout.levels.length index).reverse

end Layout

end QueryPlans
