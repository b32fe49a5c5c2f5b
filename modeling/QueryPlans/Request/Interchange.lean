import QueryPlans.Arguments
import QueryPlans.Scalar.Interchange

/-!
# Request/Interchange — requests as trees

Structures are records of their fields and alternatives are named by variants; both are spelt in the
words of the interchange format, which `Request.toJson` and `Request.ofJson?` share.  Writing takes
the form of literals as an argument.  A reader of nested syntax is bounded by the depth of the tree.
-/

namespace QueryPlans

open Json (fields? listOf? pairOf? optional?)

/-! ## Names of enumerations -/

/-- The name of an operator in JSON. -/
def BinaryOp.name : BinaryOp → String
  | eq => "Eq"
  | ne => "Ne"
  | lt => "Lt"
  | le => "Le"
  | gt => "Gt"
  | ge => "Ge"
  | and => "And"
  | or => "Or"
  | add => "Add"
  | sub => "Sub"
  | mul => "Mul"
  | div => "Div"
  | mod => "Mod"
  | has => "Has"

/-- The operator of a name. -/
def BinaryOp.ofJson? : Json → Option BinaryOp :=
  Json.named? name [eq, ne, lt, le, gt, ge, and, or, add, sub, mul, div, mod, has]

/-- The name of an operator in JSON. -/
def UnaryOp.name : UnaryOp → String
  | not => "Not"
  | negate => "Negate"

/-- The operator of a name. -/
def UnaryOp.ofJson? : Json → Option UnaryOp := Json.named? name [not, negate]

/-- The name of a quantifier in JSON. -/
def Quantifier.name : Quantifier → String
  | any => "Any"
  | all => "All"

/-- The quantifier of a name. -/
def Quantifier.ofJson? : Json → Option Quantifier := Json.named? name [any, all]

/-- The name of a direction in JSON. -/
def Direction.name : Direction → String
  | ascending => "Asc"
  | descending => "Desc"

/-- The direction of a name. -/
def Direction.ofJson? : Json → Option Direction := Json.named? name [ascending, descending]

/-- The name of a method in JSON. -/
def AggregateMethod.name : AggregateMethod → String
  | sum => "Sum"
  | min => "Min"
  | max => "Max"
  | average => "Average"
  | countDistinct => "CountDistinct"
  | count => "Count"

/-- The method of a name. -/
def AggregateMethod.ofJson? : Json → Option AggregateMethod :=
  Json.named? name [sum, min, max, average, countDistinct, count]

/-! ## Writing -/

/-- A path as the list of its segments. -/
def PropertyPath.toJson (path : PropertyPath) : Json := .array (path.segments.map Json.text)

/-- A parameter as its name and its type. -/
def Parameter.toJson (slot : Parameter) : Json :=
  .record [("name", .text slot.name), ("ty", .text slot.type.name)]

section Writing

variable (literal : Scalar → Json)

mutual

/-- An expression in JSON; how a literal is written is a parameter. -/
def Expr.toJson : Expr → Json
  | .literal v => .record [("Literal", literal v)]
  | .parameter slot => .record [("Parameter", slot.toJson)]
  | .property path => .record [("Property", path.toJson)]
  | .binary op left right =>
    .record [("Binary", .record
      [("op", .text op.name), ("left", left.toJson), ("right", right.toJson)])]
  | .unary op operand =>
    .record [("Unary", .record [("op", .text op.name), ("operand", operand.toJson)])]
  | .call function args =>
    .record [("Call", .record
      [("function", .text function), ("args", .array (Expr.allToJson args))])]
  | .lambda quantifier source binder body =>
    .record [("Lambda", .record [("kind", .text quantifier.name), ("source", source.toJson),
      ("variable", .text binder), ("body", body.toJson)])]
  | .oneOf operand items =>
    .record [("In", .record
      [("operand", operand.toJson), ("items", .array (Expr.allToJson items))])]
  | .unmodelled text => .record [("Opaque", .text text)]

/-- Expressions in order. -/
def Expr.allToJson : List Expr → List Json
  | [] => []
  | e :: rest => e.toJson :: Expr.allToJson rest

end

/-- An order in JSON. -/
def OrderItem.toJson (item : OrderItem) : Json :=
  .record [("expr", item.key.toJson literal), ("direction", .text item.direction.name)]

/-- An aggregate in JSON. -/
def Aggregate.toJson (item : Aggregate) : Json :=
  .record [("expr", item.operand.toJson literal), ("method", .text item.method.name),
    ("alias", .text item.name)]

/-- A computed value in JSON. -/
def Computed.toJson (item : Computed) : Json :=
  .record [("expr", item.value.toJson literal), ("alias", .text item.name)]

mutual

/-- A transformation in JSON, with those nested in it. -/
def Transformation.toJson : Transformation → Json
  | .filter condition => .record [("Filter", condition.toJson literal)]
  | .groupBy properties nested =>
    .record [("GroupBy", .record [("properties", .array (properties.map PropertyPath.toJson)),
      ("then", .array (Transformation.allToJson nested))])]
  | .aggregate items => .record [("Aggregate", .array (items.map (Aggregate.toJson literal)))]
  | .compute items => .record [("Compute", .array (items.map (Computed.toJson literal)))]

/-- Steps in order. -/
def Transformation.allToJson : List Transformation → List Json
  | [] => []
  | step :: rest => step.toJson :: Transformation.allToJson rest

end

/-- The record of an expansion, around the trees of its items. -/
def ExpandClauses.toJson (clauses : ExpandClauses) (items : List Json) : Json :=
  let option := Json.ofOption (Expr.toJson literal)
  .record
    [("filter", option clauses.filter),
      ("order_by", .array (clauses.orderBy.map (OrderItem.toJson literal))),
      ("select_expand", .record [("items", .array items)]), ("skip", option clauses.paging.skip),
      ("top", option clauses.paging.top), ("count", .bool clauses.count),
      ("levels", Json.ofOption (fun n => .nat n.toNat) clauses.levels),
      ("page_size", option clauses.paging.pageSize), ("next_link", .bool clauses.nextLink)]

mutual

/-- An item in JSON; what an expansion selects stands among its options. -/
def SelectItem.toJson : SelectItem → Json
  | .wildcard => .text "Wildcard"
  | .property path => .record [("Property", path.toJson)]
  | .expand path clauses items =>
    .record [("Expand", .record [("navigation", path.toJson),
      ("options", clauses.toJson literal (SelectItem.allToJson items))])]

/-- Items in order. -/
def SelectItem.allToJson : List SelectItem → List Json
  | [] => []
  | item :: rest => item.toJson :: SelectItem.allToJson rest

end

/-- A named expression is a pair. -/
def namedExprToJson (part : String × Expr) : Json :=
  .array [.text part.1, part.2.toJson literal]

/-- A segment in JSON. -/
def Segment.toJson : Segment → Json
  | .entitySet name => .record [("EntitySet", .text name)]
  | .key parts => .record [("Key", .array (parts.map (namedExprToJson literal)))]
  | .navigation name => .record [("Navigation", .text name)]
  | .property name => .record [("Property", .text name)]
  | .cast name => .record [("Cast", .text name)]
  | .count => .text "Count"
  | .unmodelled text => .record [("Opaque", .text text)]

/-- The clause that a request resumes by, in JSON. -/
def continuationToJson (values : List (String × Expr)) : Json :=
  .record [("components", .array (values.map (namedExprToJson literal)))]

/-- **The tree of a request.** -/
def Request.toJson (r : Request) : Json :=
  let option := Json.ofOption (Expr.toJson literal)
  .record
    [("path", .array (r.path.map (Segment.toJson literal))), ("filter", option r.filter),
      ("apply", .array (Transformation.allToJson literal r.apply)),
      ("select_expand", .record [("items", .array (SelectItem.allToJson literal r.items))]),
      ("order_by", .array (r.orderBy.map (OrderItem.toJson literal))),
      ("skip", option r.paging.skip), ("top", option r.paging.top),
      ("skip_token", Json.ofOption (continuationToJson literal) r.continuation),
      ("count", .bool r.count), ("page_size", option r.paging.pageSize)]

end Writing

/-! ## Reading -/

/-- The path that a list of texts spells. -/
def PropertyPath.ofJson? (j : Json) : Option PropertyPath := (j.listOf? Json.text?).map .mk

/-- The parameter of a record. -/
def Parameter.ofJson? (j : Json) : Option Parameter := do
  match ← j.fields? ["name", "ty"] with
  | [some name, some type] => some ⟨← name.text?, ← ScalarType.ofJson? type⟩
  | _ => none

/-- The payload of a variant that is not a plain name. -/
def payloadOf? (j : Json) : Option (String × Json) := do
  let (name, payload) ← j.variant?
  some (name, ← payload)

/-- An expression whose tree is no deeper than the bound. -/
def Expr.read? : Nat → Json → Option Expr
  | 0, _ => none
  | bound + 1, j => do
    let (name, payload) ← payloadOf? j
    match name with
    | "Literal" => (Scalar.ofJson? payload).map .literal
    | "Parameter" => (Parameter.ofJson? payload).map .parameter
    | "Property" => (PropertyPath.ofJson? payload).map .property
    | "Binary" =>
      match ← payload.namedFields? ["op", "left", "right"] with
      | [some op, some left, some right] =>
        some (.binary (← BinaryOp.ofJson? op) (← read? bound left) (← read? bound right))
      | _ => none
    | "Unary" =>
      match ← payload.namedFields? ["op", "operand"] with
      | [some op, some operand] => some (.unary (← UnaryOp.ofJson? op) (← read? bound operand))
      | _ => none
    | "Call" =>
      match ← payload.namedFields? ["function", "args"] with
      | [some function, some args] =>
        some (.call (← function.text?) (← args.listOf? (read? bound)))
      | _ => none
    | "Lambda" =>
      match ← payload.namedFields? ["kind", "source", "variable", "body"] with
      | [some kind, some source, some binder, some body] =>
        some (.lambda (← Quantifier.ofJson? kind) (← PropertyPath.ofJson? source)
          (← binder.text?) (← read? bound body))
      | _ => none
    | "In" =>
      match ← payload.namedFields? ["operand", "items"] with
      | [some operand, some items] =>
        some (.oneOf (← read? bound operand) (← items.listOf? (read? bound)))
      | _ => none
    | "Opaque" => payload.text?.map .unmodelled
    | _ => none

/-- The expression that a tree describes; its depth bounds the recursion. -/
def Expr.ofJson? (j : Json) : Option Expr := Expr.read? j.depth j

/-- The order of a record. -/
def OrderItem.ofJson? (j : Json) : Option OrderItem := do
  match ← j.fields? ["expr", "direction"] with
  | [some key, some direction] => some ⟨← Expr.ofJson? key, ← Direction.ofJson? direction⟩
  | _ => none

/-- The aggregate of a record. -/
def Aggregate.ofJson? (j : Json) : Option Aggregate := do
  match ← j.fields? ["expr", "method", "alias"] with
  | [some operand, some method, some name] =>
    some ⟨← Expr.ofJson? operand, ← AggregateMethod.ofJson? method, ← name.text?⟩
  | _ => none

/-- The computed value of a record. -/
def Computed.ofJson? (j : Json) : Option Computed := do
  match ← j.fields? ["expr", "alias"] with
  | [some value, some name] => some ⟨← Expr.ofJson? value, ← name.text?⟩
  | _ => none

/-- A step whose tree is no deeper than the bound. -/
def Transformation.read? : Nat → Json → Option Transformation
  | 0, _ => none
  | bound + 1, j => do
    let (name, payload) ← payloadOf? j
    match name with
    | "Filter" => (Expr.ofJson? payload).map .filter
    | "GroupBy" =>
      match ← payload.namedFields? ["properties", "then"] with
      | [some properties, some nested] =>
        some (.groupBy (← properties.listOf? PropertyPath.ofJson?)
          (← nested.listOf? (read? bound)))
      | _ => none
    | "Aggregate" => (payload.listOf? Aggregate.ofJson?).map .aggregate
    | "Compute" => (payload.listOf? Computed.ofJson?).map .compute
    | _ => none

/-- The transformation that a tree describes; its depth bounds the recursion. -/
def Transformation.ofJson? (j : Json) : Option Transformation := Transformation.read? j.depth j

/-- The items of a selection. -/
def selectionOf? (item? : Json → Option SelectItem) (j : Json) : Option (List SelectItem) := do
  match ← j.fields? ["items"] with
  | [some items] => items.listOf? item?
  | _ => none

/-- An expansion, given the reader of its items. -/
def expansionOf? (item? : Json → Option SelectItem) (j : Json) : Option SelectItem := do
  let names := ["filter", "order_by", "select_expand", "skip", "top", "count", "levels",
    "page_size", "next_link"]
  match ← j.fields? ["navigation", "options"] with
  | [some navigation, some options] =>
    match ← options.fields? names with
    | [filter, some orderBy, some items, skip, top, some count, levels, pageSize, some nextLink] =>
      let navigation ← PropertyPath.ofJson? navigation
      let filter ← optional? Expr.ofJson? filter
      let orderBy ← orderBy.listOf? OrderItem.ofJson?
      let items ← selectionOf? item? items
      let skip ← optional? Expr.ofJson? skip
      let top ← optional? Expr.ofJson? top
      let count ← count.bool?
      let levels ← optional? (Json.integerWithin? 0 (UInt32.size - 1 : Nat)) levels
      let pageSize ← optional? Expr.ofJson? pageSize
      let nextLink ← nextLink.bool?
      let levels := levels.map fun n => n.toNat.toUInt32
      some (.expand navigation ⟨filter, orderBy, ⟨skip, top, pageSize⟩, count, levels, nextLink⟩
        items)
    | _ => none
  | _ => none

/-- An item whose tree is no deeper than the bound. -/
def SelectItem.read? : Nat → Json → Option SelectItem
  | 0, _ => none
  | bound + 1, j => do
    match ← j.variant? with
    | ("Wildcard", none) | ("Wildcard", some .null) => some .wildcard
    | ("Property", some path) => (PropertyPath.ofJson? path).map .property
    | ("Expand", some expansion) => expansionOf? (read? bound) expansion
    | _ => none

/-- The item that a tree describes; its depth bounds the recursion. -/
def SelectItem.ofJson? (j : Json) : Option SelectItem := SelectItem.read? j.depth j

/-- An expansion on its own. -/
def SelectItem.ofExpansion? : Json → Option SelectItem := expansionOf? SelectItem.ofJson?

/-- A named expression. -/
def namedExprOf? : Json → Option (String × Expr) := pairOf? Json.text? Expr.ofJson?

/-- The segment that a tree describes. -/
def Segment.ofJson? (j : Json) : Option Segment := do
  match ← j.variant? with
  | ("EntitySet", some name) => name.text?.map .entitySet
  | ("Key", some parts) => (parts.listOf? namedExprOf?).map .key
  | ("Navigation", some name) => name.text?.map .navigation
  | ("Property", some name) => name.text?.map .property
  | ("Cast", some name) => name.text?.map .cast
  | ("Count", none) | ("Count", some .null) => some .count
  | ("Opaque", some text) => text.text?.map .unmodelled
  | _ => none

/-- The clause that a record describes. -/
def continuationOf? (j : Json) : Option (List (String × Expr)) := do
  match ← j.fields? ["components"] with
  | [some values] => values.listOf? namedExprOf?
  | _ => none

/-- **The request of a tree.** -/
def Request.ofJson? (j : Json) : Option Request := do
  let names := ["path", "filter", "apply", "select_expand", "order_by", "skip", "top",
    "skip_token", "count", "page_size"]
  match ← j.fields? names with
  | [some path, filter, some apply, some items, some orderBy, skip, top, continuation, some count,
      pageSize] =>
    let path ← path.listOf? Segment.ofJson?
    let filter ← optional? Expr.ofJson? filter
    let apply ← apply.listOf? Transformation.ofJson?
    let items ← selectionOf? SelectItem.ofJson? items
    let orderBy ← orderBy.listOf? OrderItem.ofJson?
    let skip ← optional? Expr.ofJson? skip
    let top ← optional? Expr.ofJson? top
    let continuation ← optional? continuationOf? continuation
    let count ← count.bool?
    let pageSize ← optional? Expr.ofJson? pageSize
    some ⟨path, filter, apply, items, orderBy, ⟨skip, top, pageSize⟩, continuation, count⟩
  | _ => none

/-! ## Origins of slots -/

/-- The record of an origin's navigation path. -/
def navigationRecord (navigation : List String) : Json :=
  .record [("navigation", .array (navigation.map Json.text))]

/-- An origin in JSON, with the navigation or the property that it names. -/
def SlotOrigin.toJson : SlotOrigin → Json
  | .key => .text "Key"
  | .filter navigation => .record [("Filter", navigationRecord navigation)]
  | .apply => .text "Apply"
  | .orderBy navigation => .record [("OrderBy", navigationRecord navigation)]
  | .skip navigation => .record [("Skip", navigationRecord navigation)]
  | .top navigation => .record [("Top", navigationRecord navigation)]
  | .pageSize navigation => .record [("PageSize", navigationRecord navigation)]
  | .continuation property => .record [("SkipToken", .record [("property", .text property)])]

/-- The navigation path of an origin's record. -/
def navigationOf? (j : Json) : Option (List String) := do
  match ← j.namedFields? ["navigation"] with
  | [some navigation] => navigation.listOf? Json.text?
  | _ => none

/-- The origin that a tree describes. -/
def SlotOrigin.ofJson? (j : Json) : Option SlotOrigin := do
  match ← j.variant? with
  | ("Key", none) | ("Key", some .null) => some .key
  | ("Apply", none) | ("Apply", some .null) => some .apply
  | ("Filter", some j) => (navigationOf? j).map .filter
  | ("OrderBy", some j) => (navigationOf? j).map .orderBy
  | ("Skip", some j) => (navigationOf? j).map .skip
  | ("Top", some j) => (navigationOf? j).map .top
  | ("PageSize", some j) => (navigationOf? j).map .pageSize
  | ("SkipToken", some j) =>
    match ← j.namedFields? ["property"] with
    | [some property] => property.text?.map .continuation
    | _ => none
  | _ => none

end QueryPlans
