import QueryPlans.Scalar

/-!
# Request/Basic — the syntax of data requests

A request addresses a resource by a path of segments and carries clauses: a filter, a pipeline of
transformations, selected and expanded items, an order, counts, a continuation and a page size.
Literals may stand wherever an expression may.  A parameter names the slot that a lifted literal
left behind; a request that clients send has none.
-/

namespace QueryPlans

/-! ## Expressions -/

/-- A property, reached through zero or more single-valued navigations. -/
structure PropertyPath where
  segments : List String
deriving DecidableEq

/-- The path that a text writes with slashes; empty segments do not count. -/
def PropertyPath.ofText (text : String) : PropertyPath where
  segments := ((text.toList.splitOn '/').filter (!·.isEmpty)).map String.ofList

/-- The operators between two expressions, in the order of their tags. -/
inductive BinaryOp where
  | eq
  | ne
  | lt
  | le
  | gt
  | ge
  | and
  | or
  | add
  | sub
  | mul
  | div
  | mod
  | has
deriving DecidableEq

/-- The operators in front of an expression. -/
inductive UnaryOp where
  | not
  | negate
deriving DecidableEq

/-- The quantifier of a lambda over a collection. -/
inductive Quantifier where
  | any
  | all
deriving DecidableEq

/-- A slot as it stands in an expression. -/
structure Parameter where
  name : String
  type : ScalarType
deriving DecidableEq

/-- An expression over the properties of an entity. -/
inductive Expr where
  | literal (value : Scalar)
  | parameter (slot : Parameter)
  | property (path : PropertyPath)
  | binary (op : BinaryOp) (left right : Expr)
  | unary (op : UnaryOp) (operand : Expr)
  | call (function : String) (args : List Expr)
  | lambda (quantifier : Quantifier) (source : PropertyPath) (binder : String) (body : Expr)
  | oneOf (operand : Expr) (items : List Expr)
  /-- A construct that this library does not model, by its text. -/
  | unmodelled (text : String)

/-! ## Clauses -/

/-- Which way items are ordered. -/
inductive Direction where
  | ascending
  | descending
deriving DecidableEq

/-- What items are ordered by, and which way. -/
structure OrderItem where
  key : Expr
  direction : Direction

/-- How the values of a group become one. -/
inductive AggregateMethod where
  | sum
  | min
  | max
  | average
  | countDistinct
  | count
deriving DecidableEq

/-- A value of a group, under a name of its own. -/
structure Aggregate where
  operand : Expr
  method : AggregateMethod
  name : String

/-- A value of each item, under a name of its own. -/
structure Computed where
  value : Expr
  name : String

/-- One step of a transformation pipeline. -/
inductive Transformation where
  | filter (condition : Expr)
  | groupBy (properties : List PropertyPath) (nested : List Transformation)
  | aggregate (items : List Aggregate)
  | compute (items : List Computed)

/-- The counts that limit a collection, each an expression until it is checked. -/
structure Paging where
  skip : Option Expr
  top : Option Expr
  pageSize : Option Expr

/-- What an expanded navigation asks for apart from its own items. -/
structure ExpandClauses where
  filter : Option Expr
  orderBy : List OrderItem
  paging : Paging
  count : Bool
  /-- How often a recursive navigation is followed, within 32 bits. -/
  levels : Option UInt32
  /-- Whether a page of the navigation ends with a link to the next one. -/
  nextLink : Bool

/-- A selected property or an expanded navigation. -/
inductive SelectItem where
  | wildcard
  | property (path : PropertyPath)
  | expand (navigation : PropertyPath) (clauses : ExpandClauses) (items : List SelectItem)

/-! ## Requests -/

/-- A step on the way to the requested resource. -/
inductive Segment where
  | entitySet (name : String)
  | key (parts : List (String × Expr))
  | navigation (name : String)
  | property (name : String)
  | cast (name : String)
  | count
  /-- A segment that this library does not model, by its text. -/
  | unmodelled (text : String)

/-- The identifier by which a segment takes part in a digest. -/
def Segment.identifier : Segment → String
  | entitySet name | navigation name | property name | cast name | unmodelled name => name
  | key _ => "$key"
  | count => "$count"

/-- A request, clause by clause, with its literals or with parameters in their places. -/
structure Request where
  path : List Segment
  filter : Option Expr
  apply : List Transformation
  items : List SelectItem
  orderBy : List OrderItem
  paging : Paging
  /-- Where to resume: the values of the last item seen, by property. -/
  continuation : Option (List (String × Expr))
  count : Bool

/-- No limits. -/
def Paging.unlimited : Paging := ⟨none, none, none⟩

/-- The clauses of an expansion that asks for nothing more. -/
def ExpandClauses.plain : ExpandClauses := ⟨none, [], .unlimited, false, none, false⟩

/-- The request without path and clauses. -/
def Request.empty : Request := ⟨[], none, [], [], [], .unlimited, none, false⟩

end QueryPlans
