import QueryPlans.Arguments

/-!
# Shape/Lifting — every literal of a request becomes a slot

Lifting walks a request in one fixed order: path, filter, pipeline, expansions depth first, order,
skip, top, continuation, page size; within an expansion filter, order, nested items and counts.
Each literal is pushed onto the arguments and leaves a parameter behind.  Requests that differ only
in literals therefore leave the same request behind, with the same slot names.  What the library
does not model stays as it is and is remembered.

A request is refused for a parameter it already has, for a count that is no natural number, and for
a continuation without values or with values that are no literals.
-/

namespace QueryPlans

/-- A clause whose expression has to be a count. -/
inductive CountClause where
  | skip
  | top
  | pageSize
deriving DecidableEq

namespace CountClause

/-- The name of a count in messages. -/
def label : CountClause → String
  | skip => "$skip"
  | top => "$top"
  | pageSize => "page size"

/-- Where the count of an expansion is lifted from. -/
def origin (navigation : List String) : CountClause → SlotOrigin
  | skip => .skip navigation
  | top => .top navigation
  | pageSize => .pageSize navigation

end CountClause

/-- What keeps the literals of a request from being lifted. -/
inductive LiftError where
  /-- The request has a parameter. -/
  | parameterInRequest
  | countNotNatural (clause : CountClause)
  | countNotLiteral (clause : CountClause)
  | emptyContinuation
  | continuationNotLiteral
deriving DecidableEq

/-- The text of a fault. -/
def LiftError.message : LiftError → String
  | parameterInRequest => "invalid argument: request already contains parameter slots"
  | countNotNatural clause =>
    "invalid argument: " ++ clause.label ++ " must be a non-negative integer"
  | countNotLiteral clause => "invalid argument: " ++ clause.label ++ " must be a literal"
  | emptyContinuation => "invalid argument: skip token carries no components"
  | continuationNotLiteral => "invalid argument: expected a literal value"

/-- What lifting has found so far. -/
structure Lifting where
  arguments : Arguments
  /-- Whether all that was met is modelled. -/
  modelled : Bool

/-- A step of lifting gives what is left of a piece of syntax. -/
abbrev LiftM := StateT Lifting (Except LiftError)

namespace Lifting

/-- Nothing has been lifted, and nothing was met that is not modelled. -/
def start : Lifting := ⟨.empty, true⟩

/-- Remembers that something is not modelled. -/
def noteUnmodelled : LiftM Unit := modify fun s => { s with modelled := false }

/-- Pushes a literal and gives the parameter it leaves behind. -/
def push (origin : SlotOrigin) (value : Scalar) : LiftM Expr := do
  let slot := (← get).arguments.nextSlot origin value
  modify fun s => { s with arguments := s.arguments.push origin value }
  return .parameter slot.parameter

end Lifting

/-! ## Expressions -/

mutual

/-- **Lifts the literals of an expression**, from left to right. -/
def Expr.lift (origin : SlotOrigin) : Expr → LiftM Expr
  | .literal v => Lifting.push origin v
  | .parameter _ => throw .parameterInRequest
  | .property path => return .property path
  | .binary op left right => return .binary op (← left.lift origin) (← right.lift origin)
  | .unary op operand => return .unary op (← operand.lift origin)
  | .call function args => return .call function (← Expr.liftAll origin args)
  | .lambda quantifier source binder body =>
    return .lambda quantifier source binder (← body.lift origin)
  | .oneOf operand items => return .oneOf (← operand.lift origin) (← Expr.liftAll origin items)
  | .unmodelled text => do
    Lifting.noteUnmodelled
    return .unmodelled text

/-- Expressions from left to right. -/
def Expr.liftAll (origin : SlotOrigin) : List Expr → LiftM (List Expr)
  | [] => return []
  | e :: rest => return (← e.lift origin) :: (← Expr.liftAll origin rest)

end

/-! ## Clauses -/

/-- A count is a natural number, whatever clause it stands in. -/
def CountClause.lift (clause : CountClause) (navigation : List String) : Expr → LiftM Expr
  | .literal (.int n) =>
    if n < 0 then throw (.countNotNatural clause)
    else Lifting.push (clause.origin navigation) (.int n)
  | .literal _ => throw (.countNotNatural clause)
  | _ => throw (.countNotLiteral clause)

/-- Lifts the literals of an order. -/
def OrderItem.lift (navigation : List String) (item : OrderItem) : LiftM OrderItem :=
  return { item with key := ← item.key.lift (.orderBy navigation) }

/-- Lifts the literals of an aggregate. -/
def Aggregate.lift (item : Aggregate) : LiftM Aggregate :=
  return { item with operand := ← item.operand.lift .apply }

/-- Lifts the literals of a computed value. -/
def Computed.lift (item : Computed) : LiftM Computed :=
  return { item with value := ← item.value.lift .apply }

mutual

/-- Lifts the literals of a transformation, those nested in it included. -/
def Transformation.lift : Transformation → LiftM Transformation
  | .filter condition => return .filter (← condition.lift .apply)
  | .groupBy properties nested => return .groupBy properties (← Transformation.liftAll nested)
  | .aggregate items => return .aggregate (← items.mapM Aggregate.lift)
  | .compute items => return .compute (← items.mapM Computed.lift)

/-- A pipeline in order. -/
def Transformation.liftAll : List Transformation → LiftM (List Transformation)
  | [] => return []
  | step :: rest => return (← step.lift) :: (← Transformation.liftAll rest)

end

mutual

/-- An expansion is lifted within the navigation that leads to it. -/
def SelectItem.lift (navigation : List String) : SelectItem → LiftM SelectItem
  | .wildcard => return .wildcard
  | .property path => return .property path
  | .expand path clauses items => do
    let inner := navigation ++ path.segments
    let filter ← clauses.filter.mapM (Expr.lift (.filter inner))
    let orderBy ← clauses.orderBy.mapM (OrderItem.lift inner)
    let items ← SelectItem.liftAll inner items
    let skip ← clauses.paging.skip.mapM (CountClause.skip.lift inner)
    let top ← clauses.paging.top.mapM (CountClause.top.lift inner)
    let pageSize ← clauses.paging.pageSize.mapM (CountClause.pageSize.lift inner)
    return .expand path { clauses with filter, orderBy, paging := ⟨skip, top, pageSize⟩ } items

/-- Items in order. -/
def SelectItem.liftAll (navigation : List String) : List SelectItem → LiftM (List SelectItem)
  | [] => return []
  | item :: rest => return (← item.lift navigation) :: (← SelectItem.liftAll navigation rest)

end

/-! ## Requests -/

/-- Lifts the literals of a part of a key. -/
def liftKeyPart (part : String × Expr) : LiftM (String × Expr) :=
  return (part.1, ← part.2.lift .key)

/-- Lifts the literals of a segment; only keys have any. -/
def Segment.lift : Segment → LiftM Segment
  | .key parts => return .key (← parts.mapM liftKeyPart)
  | .unmodelled text => do
    Lifting.noteUnmodelled
    return .unmodelled text
  | segment => return segment

/-- A continuation value stands alone: it is a literal or not modelled. -/
def liftContinuationValue : String × Expr → LiftM (String × Expr)
  | (property, .literal v) => return (property, ← Lifting.push (.continuation property) v)
  | (property, .unmodelled text) => do
    Lifting.noteUnmodelled
    return (property, .unmodelled text)
  | _ => throw .continuationNotLiteral

/-- Lifts the values that a request resumes behind; there is at least one. -/
def liftContinuation (values : List (String × Expr)) : LiftM (List (String × Expr)) :=
  if values.isEmpty then throw .emptyContinuation else values.mapM liftContinuationValue

/-- **Lifting of a whole request.** -/
def Request.lift (r : Request) : LiftM Request := do
  let path ← r.path.mapM Segment.lift
  let filter ← r.filter.mapM (Expr.lift (.filter []))
  let apply ← Transformation.liftAll r.apply
  let items ← SelectItem.liftAll [] r.items
  let orderBy ← r.orderBy.mapM (OrderItem.lift [])
  let skip ← r.paging.skip.mapM (CountClause.skip.lift [])
  let top ← r.paging.top.mapM (CountClause.top.lift [])
  let continuation ← r.continuation.mapM liftContinuation
  let pageSize ← r.paging.pageSize.mapM (CountClause.pageSize.lift [])
  let paging : Paging := ⟨skip, top, pageSize⟩
  return { r with path, filter, apply, items, orderBy, paging, continuation }

end QueryPlans
