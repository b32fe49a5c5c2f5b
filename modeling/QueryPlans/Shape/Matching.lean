import QueryPlans.Request.Basic

/-!
# Shape/Matching — requests that agree node for node

Two lifted requests match when every clause agrees; parameters agree when their types do, whatever
their names.  A literal and a construct that is not modelled match nothing, not even themselves, so
an unforeseen request can at worst miss a stored plan.
-/

namespace QueryPlans

/-- Lists of one length that agree at every place. -/
def matchEach {α : Type} (agree : α → α → Bool) : List α → List α → Bool
  | [], [] => true
  | a :: as, b :: bs => agree a b && matchEach agree as bs
  | _, _ => false

/-- Whether two values agree, or both are absent. -/
def matchOption {α : Type} (agree : α → α → Bool) : Option α → Option α → Bool
  | none, none => true
  | some a, some b => agree a b
  | _, _ => false

/-- Pairs of one name whose values agree. -/
def matchNamed {α : Type} (agree : α → α → Bool) (a b : String × α) : Bool :=
  a.1 == b.1 && agree a.2 b.2

mutual

/-- **Whether expressions agree**; parameters do if their types are the same. -/
def Expr.agrees : Expr → Expr → Bool
  | .parameter a, .parameter b => a.type == b.type
  | .property a, .property b => a == b
  | .binary op left right, .binary op' left' right' =>
    op == op' && left.agrees left' && right.agrees right'
  | .unary op operand, .unary op' operand' => op == op' && operand.agrees operand'
  | .call function args, .call function' args' =>
    function == function' && Expr.allAgree args args'
  | .lambda quantifier source binder body, .lambda quantifier' source' binder' body' =>
    quantifier == quantifier' && source == source' && binder == binder' && body.agrees body'
  | .oneOf operand items, .oneOf operand' items' =>
    operand.agrees operand' && Expr.allAgree items items'
  | _, _ => false

/-- Expressions that agree at every place. -/
def Expr.allAgree : List Expr → List Expr → Bool
  | [], [] => true
  | a :: as, b :: bs => a.agrees b && Expr.allAgree as bs
  | _, _ => false

end

namespace OrderItem

/-- Whether orders agree. -/
def agrees (a b : OrderItem) : Bool := a.direction == b.direction && a.key.agrees b.key

end OrderItem

namespace Aggregate

/-- Whether aggregates agree. -/
def agrees (a b : Aggregate) : Bool :=
  a.method == b.method && a.name == b.name && a.operand.agrees b.operand

end Aggregate

namespace Computed

/-- Whether computed values agree. -/
def agrees (a b : Computed) : Bool := a.name == b.name && a.value.agrees b.value

end Computed

mutual

/-- Whether transformations agree, with those nested in them. -/
def Transformation.agrees : Transformation → Transformation → Bool
  | .filter condition, .filter condition' => condition.agrees condition'
  | .groupBy properties nested, .groupBy properties' nested' =>
    properties == properties' && Transformation.allAgree nested nested'
  | .aggregate items, .aggregate items' => matchEach Aggregate.agrees items items'
  | .compute items, .compute items' => matchEach Computed.agrees items items'
  | _, _ => false

/-- Pipelines that agree at every step. -/
def Transformation.allAgree : List Transformation → List Transformation → Bool
  | [], [] => true
  | a :: as, b :: bs => a.agrees b && Transformation.allAgree as bs
  | _, _ => false

end

namespace Paging

/-- Whether limits agree. -/
def agrees (a b : Paging) : Bool :=
  matchOption Expr.agrees a.skip b.skip && matchOption Expr.agrees a.top b.top &&
    matchOption Expr.agrees a.pageSize b.pageSize

end Paging

namespace ExpandClauses

/-- Whether the clauses of expansions agree. -/
def agrees (a b : ExpandClauses) : Bool :=
  matchOption Expr.agrees a.filter b.filter && matchEach OrderItem.agrees a.orderBy b.orderBy &&
    a.paging.agrees b.paging && a.count == b.count && a.levels == b.levels &&
    a.nextLink == b.nextLink

end ExpandClauses

mutual

/-- Whether items agree, with what they select in turn. -/
def SelectItem.agrees : SelectItem → SelectItem → Bool
  | .wildcard, .wildcard => true
  | .property a, .property b => a == b
  | .expand path clauses items, .expand path' clauses' items' =>
    path == path' && clauses.agrees clauses' && SelectItem.allAgree items items'
  | _, _ => false

/-- Items that agree at every place. -/
def SelectItem.allAgree : List SelectItem → List SelectItem → Bool
  | [], [] => true
  | a :: as, b :: bs => a.agrees b && SelectItem.allAgree as bs
  | _, _ => false

end

namespace Segment

/-- Whether segments agree. -/
def agrees : Segment → Segment → Bool
  | .entitySet a, .entitySet b => a == b
  | .key parts, .key parts' => matchEach (matchNamed Expr.agrees) parts parts'
  | .navigation a, .navigation b => a == b
  | .property a, .property b => a == b
  | .cast a, .cast b => a == b
  | .count, .count => true
  | _, _ => false

end Segment

/-- **Agreement of two requests, node for node.** -/
def Request.agrees (a b : Request) : Bool :=
  matchEach Segment.agrees a.path b.path && matchOption Expr.agrees a.filter b.filter &&
    Transformation.allAgree a.apply b.apply && SelectItem.allAgree a.items b.items &&
    matchEach OrderItem.agrees a.orderBy b.orderBy && a.paging.agrees b.paging &&
    matchOption (matchEach (matchNamed Expr.agrees)) a.continuation b.continuation &&
    a.count == b.count

end QueryPlans
