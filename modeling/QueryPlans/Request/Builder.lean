import QueryPlans.Continuation

/-!
# Request/Builder — requests from programs of steps

A program lists, step by step, what a request asks for; an expansion has a program of its own.  The
first step that is not allowed, in the order in which steps are met, is the fault of the whole
program, and a program without a fault still has to give the request a path.
-/

namespace QueryPlans

/-- What keeps a program from making a request. -/
inductive BuildError where
  | entitySetNotFirst
  | keyNotPreceded
  | emptyKey
  | navigationNotPreceded
  | emptyExpandPath
  | negativeSkip
  | negativeTop
  | negativePageSize
  | emptyContinuation
  | emptyPath
deriving DecidableEq

/-- The text of a fault. -/
def BuildError.message : BuildError → String
  | entitySetNotFirst => "invalid argument: entity set must be the first path segment"
  | keyNotPreceded => "invalid argument: key predicate requires a preceding segment"
  | emptyKey => "invalid argument: key predicate requires at least one part"
  | navigationNotPreceded => "invalid argument: navigation requires a preceding segment"
  | emptyExpandPath => "invalid argument: expand requires a navigation path"
  | negativeSkip => "invalid argument: $skip must be non-negative"
  | negativeTop => "invalid argument: $top must be non-negative"
  | negativePageSize => "invalid argument: page size must be non-negative"
  | emptyContinuation => "invalid argument: skip token carries no components"
  | emptyPath => "invalid argument: query requires a resource path"

/-! ## Programs -/

/-- A step of an expansion. -/
inductive ExpandStep where
  | filter (condition : Expr)
  | select (paths : List PropertyPath)
  | expand (navigation : PropertyPath) (steps : List ExpandStep)
  | orderBy (key : Expr) (direction : Direction)
  | skip (n : Int64)
  | top (n : Int64)
  | pageSize (n : Int64)
  | count
  | levels (n : UInt32)

/-- A step of a request. -/
inductive RequestStep where
  | entitySet (name : String)
  | key (parts : List (String × Scalar))
  | navigate (name : String)
  | segment (segment : Segment)
  | filter (condition : Expr)
  | apply (step : Transformation)
  | select (paths : List PropertyPath)
  /-- An item made elsewhere. -/
  | item (item : SelectItem)
  | expand (navigation : PropertyPath) (steps : List ExpandStep)
  | orderBy (key : Expr) (direction : Direction)
  | skip (n : Int64)
  | top (n : Int64)
  | pageSize (n : Int64)
  | count
  | resume (continuation : Continuation)

/-! ## Parts -/

/-- The count of a paging clause. -/
def countLiteral (fault : BuildError) (n : Int64) : Except BuildError Expr :=
  if n < 0 then .error fault else .ok (.literal (.int n))

/-- Filters given one after the other all have to hold. -/
def conjoin (filter : Option Expr) (condition : Expr) : Option Expr :=
  match filter with
  | none => some condition
  | some former => some (.binary .and former condition)

/-! ## Expansions -/

/-- What the steps of an expansion have asked for so far. -/
structure Expansion where
  clauses : ExpandClauses
  items : List SelectItem

namespace Expansion

/-- An expansion with neither clauses nor items. -/
def empty : Expansion := ⟨.plain, []⟩

/-- An expansion that selects more items, behind those it has. -/
def addItems (x : Expansion) (items : List SelectItem) : Expansion :=
  { x with items := x.items ++ items }

/-- An expansion with other limits. -/
def setPaging (x : Expansion) (paging : Paging) : Expansion :=
  { x with clauses := { x.clauses with paging } }

end Expansion

/-- The item that expands a navigation by what its own program asked for.  A navigation without
segments comes before any fault of that program. -/
def expandItem (navigation : PropertyPath) (inner : Except BuildError Expansion) :
    Except BuildError SelectItem :=
  if navigation.segments.isEmpty then .error .emptyExpandPath
  else inner.map fun x => .expand navigation x.clauses x.items

mutual

/-- A page size also asks for a link to the next page. -/
def ExpandStep.run : ExpandStep → Expansion → Except BuildError Expansion
  | .filter condition, x =>
    .ok { x with clauses := { x.clauses with filter := conjoin x.clauses.filter condition } }
  | .select paths, x => .ok (x.addItems (paths.map .property))
  | .expand navigation steps, x => do
    let item ← expandItem navigation (ExpandStep.runAll steps .empty)
    .ok (x.addItems [item])
  | .orderBy key direction, x =>
    .ok { x with clauses := { x.clauses with orderBy := x.clauses.orderBy ++ [⟨key, direction⟩] } }
  | .skip n, x => do
    let count ← countLiteral .negativeSkip n
    .ok (x.setPaging { x.clauses.paging with skip := some count })
  | .top n, x => do
    let count ← countLiteral .negativeTop n
    .ok (x.setPaging { x.clauses.paging with top := some count })
  | .pageSize n, x => do
    let count ← countLiteral .negativePageSize n
    let paging := { x.clauses.paging with pageSize := some count }
    .ok { x with clauses := { x.clauses with paging, nextLink := true } }
  | .count, x => .ok { x with clauses := { x.clauses with count := true } }
  | .levels n, x => .ok { x with clauses := { x.clauses with levels := some n } }

/-- Steps in order. -/
def ExpandStep.runAll : List ExpandStep → Expansion → Except BuildError Expansion
  | [], x => .ok x
  | step :: rest, x => do
    let x ← step.run x
    ExpandStep.runAll rest x

end

/-! ## Requests -/

namespace Request

/-- A request whose path goes on. -/
def addSegment (r : Request) (segment : Segment) : Request :=
  { r with path := r.path ++ [segment] }

/-- A request that selects more items, behind those it has. -/
def addItems (r : Request) (items : List SelectItem) : Request :=
  { r with items := r.items ++ items }

end Request

/-- **What a step makes of a request.** -/
def RequestStep.run : RequestStep → Request → Except BuildError Request
  | .entitySet name, r =>
    if r.path.isEmpty then .ok (r.addSegment (.entitySet name)) else .error .entitySetNotFirst
  | .key parts, r =>
    if r.path.isEmpty then .error .keyNotPreceded
    else if parts.isEmpty then .error .emptyKey
    else .ok (r.addSegment (.key (parts.map fun (name, value) => (name, .literal value))))
  | .navigate name, r =>
    if r.path.isEmpty then .error .navigationNotPreceded
    else .ok (r.addSegment (.navigation name))
  | .segment s, r => .ok (r.addSegment s)
  | .filter condition, r => .ok { r with filter := conjoin r.filter condition }
  | .apply step, r => .ok { r with apply := r.apply ++ [step] }
  | .select paths, r => .ok (r.addItems (paths.map .property))
  | .item i, r => .ok (r.addItems [i])
  | .expand navigation steps, r => do
    let item ← expandItem navigation (ExpandStep.runAll steps .empty)
    .ok (r.addItems [item])
  | .orderBy e direction, r => .ok { r with orderBy := r.orderBy ++ [⟨e, direction⟩] }
  | .skip n, r => do
    let count ← countLiteral .negativeSkip n
    .ok { r with paging := { r.paging with skip := some count } }
  | .top n, r => do
    let count ← countLiteral .negativeTop n
    .ok { r with paging := { r.paging with top := some count } }
  | .pageSize n, r => do
    let count ← countLiteral .negativePageSize n
    .ok { r with paging := { r.paging with pageSize := some count } }
  | .count, r => .ok { r with count := true }
  | .resume continuation, r =>
    if continuation.values.isEmpty then .error .emptyContinuation
    else .ok { r with continuation := some continuation.clause }

/-- Steps in order. -/
def RequestStep.runAll : List RequestStep → Request → Except BuildError Request
  | [], r => .ok r
  | step :: rest, r => do
    let r ← step.run r
    RequestStep.runAll rest r

/-- **The request that a program builds.** -/
def Request.build (steps : List RequestStep) : Except BuildError Request := do
  let r ← RequestStep.runAll steps .empty
  if r.path.isEmpty then .error .emptyPath else .ok r

end QueryPlans
