import Mathlib.Data.List.Basic
import QueryPlans.Request.Basic

/-!
# Proofs/Request/Leaves — what stands at the ends of request syntax

A leaf is a literal, a parameter or a construct that is not modelled.  Whatever this theory does to
a request it does at the leaves: `erase` keeps of a literal its type alone, `fill` puts values in
the place of parameters, and both are `mapLeaves` of a function on leaves.  `Piece` is the class of
the syntax that has leaves, so a fact about lists, options and pairs of pieces is stated once.
-/

namespace QueryPlans

/-! ## Induction

The syntax nests lists of itself, and the recursors Lean derives speak of those lists apart.  Here
the hypothesis for a list is the one for each of its members. -/

/-- **Induction on expressions.** -/
@[elab_as_elim, induction_eliminator]
theorem Expr.induct {motive : Expr → Prop}
    (literal : ∀ value, motive (.literal value))
    (parameter : ∀ slot, motive (.parameter slot))
    (property : ∀ path, motive (.property path))
    (binary : ∀ op left right, motive left → motive right → motive (.binary op left right))
    (unary : ∀ op operand, motive operand → motive (.unary op operand))
    (call : ∀ function args, (∀ e ∈ args, motive e) → motive (.call function args))
    (lambda : ∀ quantifier source binder body,
      motive body → motive (.lambda quantifier source binder body))
    (oneOf : ∀ operand items,
      motive operand → (∀ e ∈ items, motive e) → motive (.oneOf operand items))
    (unmodelled : ∀ text, motive (.unmodelled text)) (e : Expr) : motive e :=
  @Expr.rec motive (fun es => ∀ e ∈ es, motive e) literal parameter property binary unary call
    lambda oneOf unmodelled (by simp)
    (fun _ _ head tail => List.forall_mem_cons.2 ⟨head, tail⟩) e

/-- **Induction on pipelines.** -/
@[elab_as_elim, induction_eliminator]
theorem Transformation.induct {motive : Transformation → Prop}
    (filter : ∀ condition, motive (.filter condition))
    (groupBy : ∀ properties nested,
      (∀ step ∈ nested, motive step) → motive (.groupBy properties nested))
    (aggregate : ∀ items, motive (.aggregate items))
    (compute : ∀ items, motive (.compute items)) (step : Transformation) : motive step :=
  @Transformation.rec motive (fun steps => ∀ step ∈ steps, motive step) filter groupBy aggregate
    compute (by simp) (fun _ _ head tail => List.forall_mem_cons.2 ⟨head, tail⟩) step

/-- **Induction on selected items.** -/
@[elab_as_elim, induction_eliminator]
theorem SelectItem.induct {motive : SelectItem → Prop} (wildcard : motive .wildcard)
    (property : ∀ path, motive (.property path))
    (expand : ∀ path clauses items,
      (∀ item ∈ items, motive item) → motive (.expand path clauses items))
    (item : SelectItem) : motive item :=
  @SelectItem.rec motive (fun items => ∀ item ∈ items, motive item) wildcard property expand
    (by simp) (fun _ _ head tail => List.forall_mem_cons.2 ⟨head, tail⟩) item

/-! ## Leaves of expressions -/

/-- An end of an expression, apart from properties. -/
inductive Leaf where
  | literal (value : Scalar)
  | parameter (slot : Parameter)
  | unmodelled (text : String)

namespace Leaf

/-- A leaf as an expression. -/
def toExpr : Leaf → Expr
  | literal v => .literal v
  | parameter slot => .parameter slot
  | unmodelled text => .unmodelled text

/-- Whether a leaf is a literal. -/
def isLiteral : Leaf → Bool
  | literal _ => true
  | _ => false

/-- Whether a leaf is a construct that is not modelled. -/
def isUnmodelled : Leaf → Bool
  | unmodelled _ => true
  | _ => false

/-- The value of a literal. -/
def literal? : Leaf → Option Scalar
  | literal v => some v
  | _ => none

/-- What is left of a literal when all but its type is forgotten: a nameless parameter. -/
def typeOnly : Leaf → Leaf
  | literal v => parameter ⟨"", v.type⟩
  | parameter slot => parameter ⟨"", slot.type⟩
  | unmodelled text => unmodelled text

/-- A parameter whose name has a value becomes that value. -/
def bound (value? : String → Option Scalar) : Leaf → Leaf
  | parameter slot =>
    match value? slot.name with
    | some v => literal v
    | none => parameter slot
  | leaf => leaf

end Leaf

namespace Expr

mutual

/-- The leaves from left to right. -/
def leaves : Expr → List Leaf
  | .literal v => [.literal v]
  | .parameter slot => [.parameter slot]
  | .property _ => []
  | .binary _ left right => left.leaves ++ right.leaves
  | .unary _ operand => operand.leaves
  | .call _ args => leavesAll args
  | .lambda _ _ _ body => body.leaves
  | .oneOf operand items => operand.leaves ++ leavesAll items
  | .unmodelled text => [.unmodelled text]

/-- The leaves of several expressions. -/
def leavesAll : List Expr → List Leaf
  | [] => []
  | e :: rest => e.leaves ++ leavesAll rest

end

mutual

/-- Replaces every leaf. -/
def mapLeaves (f : Leaf → Leaf) : Expr → Expr
  | .literal v => (f (.literal v)).toExpr
  | .parameter slot => (f (.parameter slot)).toExpr
  | .property path => .property path
  | .binary op left right => .binary op (left.mapLeaves f) (right.mapLeaves f)
  | .unary op operand => .unary op (operand.mapLeaves f)
  | .call function args => .call function (mapLeavesAll f args)
  | .lambda quantifier source binder body => .lambda quantifier source binder (body.mapLeaves f)
  | .oneOf operand items => .oneOf (operand.mapLeaves f) (mapLeavesAll f items)
  | .unmodelled text => (f (.unmodelled text)).toExpr

/-- A function on the leaves of several expressions. -/
def mapLeavesAll (f : Leaf → Leaf) : List Expr → List Expr
  | [] => []
  | e :: rest => e.mapLeaves f :: mapLeavesAll f rest

end

@[simp] theorem leavesAll_eq (es : List Expr) : leavesAll es = es.flatMap leaves := by
  induction es with
  | nil => rfl
  | cons e rest ih => rw [leavesAll, ih, List.flatMap_cons]

@[simp] theorem mapLeavesAll_eq (f : Leaf → Leaf) (es : List Expr) :
    mapLeavesAll f es = es.map (mapLeaves f) := by
  induction es with
  | nil => rfl
  | cons e rest ih => rw [mapLeavesAll, ih, List.map_cons]

/-- Leaves put back unchanged give the expression back. -/
theorem mapLeaves_id (e : Expr) : e.mapLeaves id = e := by
  induction e with
  | call function args ih =>
    rw [mapLeaves, mapLeavesAll_eq, List.map_congr_left ih, List.map_id']
  | oneOf operand items ih ihs =>
    rw [mapLeaves, mapLeavesAll_eq, ih, List.map_congr_left ihs, List.map_id']
  | _ => simp_all [mapLeaves, Leaf.toExpr]

@[simp] theorem mapLeaves_toExpr (f : Leaf → Leaf) (x : Leaf) :
    x.toExpr.mapLeaves f = (f x).toExpr := by
  cases x <;> rfl

/-- Two functions on leaves one after the other are one function. -/
theorem mapLeaves_mapLeaves (f g : Leaf → Leaf) (e : Expr) :
    (e.mapLeaves f).mapLeaves g = e.mapLeaves (g ∘ f) := by
  induction e with
  | call function args ih => simpa [mapLeaves] using ih
  | oneOf operand items ih ihs => simpa [mapLeaves, ih] using ihs
  | _ => simp_all [mapLeaves]

end Expr

/-! ## Pieces of syntax -/

/-- Syntax with leaves that can be listed and replaced. -/
class Piece (α : Type) where
  leaves : α → List Leaf
  mapLeaves : (Leaf → Leaf) → α → α
  mapLeaves_id : ∀ a, mapLeaves id a = a
  mapLeaves_mapLeaves : ∀ f g a,
    mapLeaves g (mapLeaves f a) = mapLeaves (g ∘ f) a

namespace Piece

instance : Piece Expr where
  leaves := Expr.leaves
  mapLeaves := Expr.mapLeaves
  mapLeaves_id := Expr.mapLeaves_id
  mapLeaves_mapLeaves := Expr.mapLeaves_mapLeaves

/-- Names have no leaves. -/
instance : Piece String where
  leaves _ := []
  mapLeaves _ := id
  mapLeaves_id _ := rfl
  mapLeaves_mapLeaves _ _ _ := rfl

section

variable {α β : Type} [Piece α] [Piece β]

instance : Piece (List α) where
  leaves := List.flatMap leaves
  mapLeaves f := List.map (mapLeaves f)
  mapLeaves_id as := by rw [funext mapLeaves_id, List.map_id']
  mapLeaves_mapLeaves f g as := by
    rw [List.map_map]
    exact List.map_congr_left fun a _ => mapLeaves_mapLeaves f g a

instance : Piece (Option α) where
  leaves a := a.elim [] leaves
  mapLeaves f := Option.map (mapLeaves f)
  mapLeaves_id a := by cases a <;> simp [mapLeaves_id]
  mapLeaves_mapLeaves f g a := by cases a <;> simp [mapLeaves_mapLeaves]

instance : Piece (α × β) where
  leaves p := leaves p.1 ++ leaves p.2
  mapLeaves f p := (mapLeaves f p.1, mapLeaves f p.2)
  mapLeaves_id p := by simp [mapLeaves_id]
  mapLeaves_mapLeaves f g p := by simp [mapLeaves_mapLeaves]

end

instance : Piece OrderItem where
  leaves item := item.key.leaves
  mapLeaves f item := { item with key := item.key.mapLeaves f }
  mapLeaves_id item := by simp [Expr.mapLeaves_id]
  mapLeaves_mapLeaves f g item := by simp [Expr.mapLeaves_mapLeaves]

instance : Piece Aggregate where
  leaves item := item.operand.leaves
  mapLeaves f item := { item with operand := item.operand.mapLeaves f }
  mapLeaves_id item := by simp [Expr.mapLeaves_id]
  mapLeaves_mapLeaves f g item := by simp [Expr.mapLeaves_mapLeaves]

instance : Piece Computed where
  leaves item := item.value.leaves
  mapLeaves f item := { item with value := item.value.mapLeaves f }
  mapLeaves_id item := by simp [Expr.mapLeaves_id]
  mapLeaves_mapLeaves f g item := by simp [Expr.mapLeaves_mapLeaves]

instance : Piece Paging where
  leaves paging := leaves paging.skip ++ leaves paging.top ++ leaves paging.pageSize
  mapLeaves f paging :=
    ⟨mapLeaves f paging.skip, mapLeaves f paging.top, mapLeaves f paging.pageSize⟩
  mapLeaves_id paging := by simp only [mapLeaves_id]
  mapLeaves_mapLeaves f g paging := by simp only [mapLeaves_mapLeaves]

instance : Piece ExpandClauses where
  leaves clauses := leaves clauses.filter ++ leaves clauses.orderBy ++ leaves clauses.paging
  mapLeaves f clauses :=
    { clauses with
      filter := mapLeaves f clauses.filter
      orderBy := mapLeaves f clauses.orderBy
      paging := mapLeaves f clauses.paging }
  mapLeaves_id clauses := by simp only [mapLeaves_id]
  mapLeaves_mapLeaves f g clauses := by simp only [mapLeaves_mapLeaves]

end Piece

open Piece

/-! ## Clauses that nest -/

namespace Transformation

mutual

/-- The leaves in the order of the pipeline. -/
def leaves : Transformation → List Leaf
  | .filter condition => condition.leaves
  | .groupBy _ nested => leavesAll nested
  | .aggregate items => Piece.leaves items
  | .compute items => Piece.leaves items

/-- The leaves of several steps. -/
def leavesAll : List Transformation → List Leaf
  | [] => []
  | step :: rest => step.leaves ++ leavesAll rest

end

mutual

/-- Replaces every leaf. -/
def mapLeaves (f : Leaf → Leaf) : Transformation → Transformation
  | .filter condition => .filter (condition.mapLeaves f)
  | .groupBy properties nested => .groupBy properties (mapLeavesAll f nested)
  | .aggregate items => .aggregate (Piece.mapLeaves f items)
  | .compute items => .compute (Piece.mapLeaves f items)

/-- A function on the leaves of several steps. -/
def mapLeavesAll (f : Leaf → Leaf) : List Transformation → List Transformation
  | [] => []
  | step :: rest => step.mapLeaves f :: mapLeavesAll f rest

end

@[simp] theorem leavesAll_eq (steps : List Transformation) :
    leavesAll steps = steps.flatMap leaves := by
  induction steps with
  | nil => rfl
  | cons step rest ih => rw [leavesAll, ih, List.flatMap_cons]

@[simp] theorem mapLeavesAll_eq (f : Leaf → Leaf) (steps : List Transformation) :
    mapLeavesAll f steps = steps.map (mapLeaves f) := by
  induction steps with
  | nil => rfl
  | cons step rest ih => rw [mapLeavesAll, ih, List.map_cons]

/-- The same of a pipeline. -/
theorem mapLeaves_id (step : Transformation) : step.mapLeaves id = step := by
  induction step with
  | filter condition => rw [mapLeaves, Expr.mapLeaves_id]
  | groupBy properties nested ih =>
    rw [mapLeaves, mapLeavesAll_eq, List.map_congr_left ih, List.map_id']
  | aggregate items => rw [mapLeaves, Piece.mapLeaves_id]
  | compute items => rw [mapLeaves, Piece.mapLeaves_id]

/-- The same on a pipeline. -/
theorem mapLeaves_mapLeaves (f g : Leaf → Leaf) (step : Transformation) :
    (step.mapLeaves f).mapLeaves g = step.mapLeaves (g ∘ f) := by
  induction step with
  | filter condition => simp only [mapLeaves, Expr.mapLeaves_mapLeaves]
  | groupBy properties nested ih => simpa [mapLeaves] using ih
  | aggregate items => simp only [mapLeaves, Piece.mapLeaves_mapLeaves]
  | compute items => simp only [mapLeaves, Piece.mapLeaves_mapLeaves]

end Transformation

namespace SelectItem

mutual

/-- The leaves of an expansion: of its clauses, then of its items. -/
def leaves : SelectItem → List Leaf
  | .wildcard | .property _ => []
  | .expand _ clauses items =>
    Piece.leaves clauses.filter ++ Piece.leaves clauses.orderBy ++ leavesAll items ++
      Piece.leaves clauses.paging

/-- The leaves of several items. -/
def leavesAll : List SelectItem → List Leaf
  | [] => []
  | item :: rest => item.leaves ++ leavesAll rest

end

mutual

/-- Replaces every leaf. -/
def mapLeaves (f : Leaf → Leaf) : SelectItem → SelectItem
  | .wildcard => .wildcard
  | .property path => .property path
  | .expand path clauses items =>
    .expand path (Piece.mapLeaves f clauses) (mapLeavesAll f items)

/-- A function on the leaves of several items. -/
def mapLeavesAll (f : Leaf → Leaf) : List SelectItem → List SelectItem
  | [] => []
  | item :: rest => item.mapLeaves f :: mapLeavesAll f rest

end

@[simp] theorem leavesAll_eq (items : List SelectItem) :
    leavesAll items = items.flatMap leaves := by
  induction items with
  | nil => rfl
  | cons item rest ih => rw [leavesAll, ih, List.flatMap_cons]

@[simp] theorem mapLeavesAll_eq (f : Leaf → Leaf) (items : List SelectItem) :
    mapLeavesAll f items = items.map (mapLeaves f) := by
  induction items with
  | nil => rfl
  | cons item rest ih => rw [mapLeavesAll, ih, List.map_cons]

/-- The same of an item. -/
theorem mapLeaves_id (item : SelectItem) : item.mapLeaves id = item := by
  induction item with
  | wildcard => rfl
  | property path => rfl
  | expand path clauses items ih =>
    rw [mapLeaves, mapLeavesAll_eq, Piece.mapLeaves_id, List.map_congr_left ih, List.map_id']

/-- The same on an item. -/
theorem mapLeaves_mapLeaves (f g : Leaf → Leaf) (item : SelectItem) :
    (item.mapLeaves f).mapLeaves g = item.mapLeaves (g ∘ f) := by
  induction item with
  | wildcard => rfl
  | property path => rfl
  | expand path clauses items ih => simpa [mapLeaves, Piece.mapLeaves_mapLeaves] using ih

end SelectItem

namespace Piece

instance : Piece Transformation where
  leaves := Transformation.leaves
  mapLeaves := Transformation.mapLeaves
  mapLeaves_id := Transformation.mapLeaves_id
  mapLeaves_mapLeaves := Transformation.mapLeaves_mapLeaves

instance : Piece SelectItem where
  leaves := SelectItem.leaves
  mapLeaves := SelectItem.mapLeaves
  mapLeaves_id := SelectItem.mapLeaves_id
  mapLeaves_mapLeaves := SelectItem.mapLeaves_mapLeaves

/-! ## Requests -/

/-- A segment that is not modelled is a leaf that stays. -/
instance : Piece Segment where
  leaves
    | .key parts => leaves parts
    | .unmodelled text => [.unmodelled text]
    | _ => []
  mapLeaves f
    | .key parts => .key (mapLeaves f parts)
    | segment => segment
  mapLeaves_id segment := by cases segment <;> simp [mapLeaves_id]
  mapLeaves_mapLeaves f g segment := by cases segment <;> simp [mapLeaves_mapLeaves]

/-- The leaves come in the order in which lifting visits the clauses. -/
instance : Piece Request where
  leaves r :=
    leaves r.path ++ leaves r.filter ++ leaves r.apply ++ leaves r.items ++ leaves r.orderBy ++
      leaves r.paging.skip ++ leaves r.paging.top ++ leaves r.continuation ++
      leaves r.paging.pageSize
  mapLeaves f r :=
    { r with
      path := mapLeaves f r.path
      filter := mapLeaves f r.filter
      apply := mapLeaves f r.apply
      items := mapLeaves f r.items
      orderBy := mapLeaves f r.orderBy
      paging := mapLeaves f r.paging
      continuation := mapLeaves f r.continuation }
  mapLeaves_id r := by simp only [mapLeaves_id]
  mapLeaves_mapLeaves f g r := by simp only [mapLeaves_mapLeaves]

end Piece

/-! ## What is made of leaves -/

namespace Piece

variable {α β : Type} [Piece α] [Piece β]

/-- **A piece without its literals**: every one is replaced by its type. -/
def erase (a : α) : α := mapLeaves Leaf.typeOnly a

/-- **A piece with values in the place of its parameters**, by name. -/
def fill (value? : String → Option Scalar) (a : α) : α := mapLeaves (Leaf.bound value?) a

/-- Whether every leaf of a piece passes a test. -/
def allLeaves (p : Leaf → Bool) (a : α) : Bool := (leaves a).all p

/-- **Whether nothing in the piece is without a model**, at whatever depth. -/
def isModelled (a : α) : Bool := allLeaves (fun x => !x.isUnmodelled) a

/-- Whether no literal is left. -/
def isLifted (a : α) : Bool := allLeaves (fun x => !x.isLiteral) a

/-- A test of all leaves depends on the leaves alone. -/
theorem allLeaves_congr {p : Leaf → Bool} {a : α} {b : β} (h : leaves a = leaves b) :
    allLeaves p a = allLeaves p b := by rw [allLeaves, h, allLeaves]

/-! ## Lists, options and pairs -/

@[simp] theorem allLeaves_nil (p : Leaf → Bool) : allLeaves p ([] : List α) = true := rfl

@[simp] theorem allLeaves_cons (p : Leaf → Bool) (a : α) (rest : List α) :
    allLeaves p (a :: rest) = (allLeaves p a && allLeaves p rest) := List.all_append

@[simp] theorem allLeaves_none (p : Leaf → Bool) : allLeaves p (none : Option α) = true := rfl

@[simp] theorem allLeaves_some (p : Leaf → Bool) (a : α) : allLeaves p (some a) = allLeaves p a :=
  rfl

@[simp] theorem allLeaves_named (p : Leaf → Bool) (name : String) (a : α) :
    allLeaves p (name, a) = allLeaves p a := rfl

@[simp] theorem erase_nil : erase ([] : List α) = [] := rfl

@[simp] theorem erase_cons (a : α) (rest : List α) :
    erase (a :: rest) = erase a :: erase rest := rfl

@[simp] theorem erase_none : erase (none : Option α) = none := rfl

@[simp] theorem erase_some (a : α) : erase (some a) = some (erase a) := rfl

@[simp] theorem erase_named (name : String) (a : α) : erase (name, a) = (name, erase a) := rfl

end Piece

/-! ## Expressions, constructor by constructor -/

namespace Expr

section

variable (p : Leaf → Bool)

@[simp] theorem allLeaves_literal (v : Scalar) : allLeaves p (literal v) = p (.literal v) :=
  Bool.and_true _

@[simp] theorem allLeaves_parameter (slot : Parameter) :
    allLeaves p (parameter slot) = p (.parameter slot) := Bool.and_true _

@[simp] theorem allLeaves_property (path : PropertyPath) : allLeaves p (property path) = true := rfl

@[simp] theorem allLeaves_binary (op : BinaryOp) (left right : Expr) :
    allLeaves p (binary op left right) = (allLeaves p left && allLeaves p right) := List.all_append

@[simp] theorem allLeaves_unary (op : UnaryOp) (operand : Expr) :
    allLeaves p (unary op operand) = allLeaves p operand := rfl

@[simp] theorem allLeaves_call (function : String) (args : List Expr) :
    allLeaves p (call function args) = allLeaves p args := allLeaves_congr (leavesAll_eq args)

@[simp] theorem allLeaves_lambda (quantifier : Quantifier) (source : PropertyPath)
    (binder : String) (body : Expr) :
    allLeaves p (lambda quantifier source binder body) = allLeaves p body := rfl

@[simp] theorem allLeaves_oneOf (operand : Expr) (items : List Expr) :
    allLeaves p (oneOf operand items) = (allLeaves p operand && allLeaves p items) := by
  have hleaves : Piece.leaves (oneOf operand items) = Piece.leaves (operand, items) :=
    congrArg _ (leavesAll_eq items)
  exact (allLeaves_congr hleaves).trans List.all_append

@[simp] theorem allLeaves_unmodelled (text : String) :
    allLeaves p (unmodelled text) = p (.unmodelled text) := Bool.and_true _

end

@[simp] theorem erase_literal (v : Scalar) : erase (literal v) = parameter ⟨"", v.type⟩ := rfl

@[simp] theorem erase_parameter (slot : Parameter) :
    erase (parameter slot) = parameter ⟨"", slot.type⟩ := rfl

@[simp] theorem erase_property (path : PropertyPath) : erase (property path) = property path := rfl

@[simp] theorem erase_binary (op : BinaryOp) (left right : Expr) :
    erase (binary op left right) = binary op (erase left) (erase right) := rfl

@[simp] theorem erase_unary (op : UnaryOp) (operand : Expr) :
    erase (unary op operand) = unary op (erase operand) := rfl

@[simp] theorem erase_call (function : String) (args : List Expr) :
    erase (call function args) = call function (erase args) :=
  congrArg _ (mapLeavesAll_eq Leaf.typeOnly args)

@[simp] theorem erase_lambda (quantifier : Quantifier) (source : PropertyPath) (binder : String)
    (body : Expr) :
    erase (lambda quantifier source binder body) = lambda quantifier source binder (erase body) :=
  rfl

@[simp] theorem erase_oneOf (operand : Expr) (items : List Expr) :
    erase (oneOf operand items) = oneOf (erase operand) (erase items) :=
  congrArg _ (mapLeavesAll_eq Leaf.typeOnly items)

@[simp] theorem erase_unmodelled (text : String) : erase (unmodelled text) = unmodelled text := rfl

end Expr

/-! ## Clauses, constructor by constructor -/

section

variable (p : Leaf → Bool)

@[simp] theorem OrderItem.allLeaves_eq (item : OrderItem) :
    allLeaves p item = allLeaves p item.key := rfl

@[simp] theorem Aggregate.allLeaves_eq (item : Aggregate) :
    allLeaves p item = allLeaves p item.operand := rfl

@[simp] theorem Computed.allLeaves_eq (item : Computed) :
    allLeaves p item = allLeaves p item.value := rfl

@[simp] theorem Paging.allLeaves_eq (paging : Paging) :
    allLeaves p paging =
      (allLeaves p paging.skip && allLeaves p paging.top && allLeaves p paging.pageSize) := by
  simp only [allLeaves, leaves, List.all_append]

@[simp] theorem ExpandClauses.allLeaves_eq (clauses : ExpandClauses) :
    allLeaves p clauses =
      (allLeaves p clauses.filter && allLeaves p clauses.orderBy &&
        allLeaves p clauses.paging) := by
  simp only [allLeaves, leaves, List.all_append]

@[simp] theorem Segment.allLeaves_key (parts : List (String × Expr)) :
    allLeaves p (Segment.key parts) = allLeaves p parts := rfl

@[simp] theorem Request.allLeaves_eq (r : Request) :
    allLeaves p r =
      (allLeaves p r.path && allLeaves p r.filter && allLeaves p r.apply && allLeaves p r.items &&
        allLeaves p r.orderBy && allLeaves p r.paging && allLeaves p r.continuation) := by
  simp only [allLeaves, leaves, List.all_append]
  ac_rfl

end

theorem OrderItem.erase_mk (key : Expr) (direction : Direction) :
    erase (OrderItem.mk key direction) = ⟨erase key, direction⟩ := rfl

theorem Aggregate.erase_mk (operand : Expr) (method : AggregateMethod) (name : String) :
    erase (Aggregate.mk operand method name) = ⟨erase operand, method, name⟩ := rfl

theorem Computed.erase_mk (value : Expr) (name : String) :
    erase (Computed.mk value name) = ⟨erase value, name⟩ := rfl

theorem Paging.erase_mk (skip top pageSize : Option Expr) :
    erase (Paging.mk skip top pageSize) = ⟨erase skip, erase top, erase pageSize⟩ := rfl

theorem ExpandClauses.erase_mk (filter : Option Expr) (orderBy : List OrderItem) (paging : Paging)
    (count : Bool) (levels : Option UInt32) (nextLink : Bool) :
    erase (ExpandClauses.mk filter orderBy paging count levels nextLink) =
      ⟨erase filter, erase orderBy, erase paging, count, levels, nextLink⟩ := rfl

theorem Request.erase_mk (path : List Segment) (filter : Option Expr) (apply : List Transformation)
    (items : List SelectItem) (orderBy : List OrderItem) (paging : Paging)
    (continuation : Option (List (String × Expr))) (count : Bool) :
    erase (Request.mk path filter apply items orderBy paging continuation count) =
      ⟨erase path, erase filter, erase apply, erase items, erase orderBy, erase paging,
        erase continuation, count⟩ := rfl

namespace Segment

@[simp] theorem erase_key (parts : List (String × Expr)) : erase (key parts) = key (erase parts) :=
  rfl

@[simp] theorem erase_entitySet (name : String) : erase (entitySet name) = entitySet name := rfl

@[simp] theorem erase_navigation (name : String) : erase (navigation name) = navigation name := rfl

@[simp] theorem erase_property (name : String) : erase (property name) = property name := rfl

@[simp] theorem erase_cast (name : String) : erase (cast name) = cast name := rfl

@[simp] theorem erase_count : erase count = count := rfl

@[simp] theorem erase_unmodelled (text : String) : erase (unmodelled text) = unmodelled text := rfl

end Segment

namespace Transformation

variable (p : Leaf → Bool)

@[simp] theorem allLeaves_filter (condition : Expr) :
    allLeaves p (filter condition) = allLeaves p condition := rfl

@[simp] theorem allLeaves_groupBy (properties : List PropertyPath) (nested : List Transformation) :
    allLeaves p (groupBy properties nested) = allLeaves p nested :=
  allLeaves_congr (leavesAll_eq nested)

@[simp] theorem allLeaves_aggregate (items : List Aggregate) :
    allLeaves p (aggregate items) = allLeaves p items := rfl

@[simp] theorem allLeaves_compute (items : List Computed) :
    allLeaves p (compute items) = allLeaves p items := rfl

@[simp] theorem erase_filter (condition : Expr) :
    erase (filter condition) = filter (erase condition) := rfl

@[simp] theorem erase_groupBy (properties : List PropertyPath) (nested : List Transformation) :
    erase (groupBy properties nested) = groupBy properties (erase nested) :=
  congrArg _ (mapLeavesAll_eq Leaf.typeOnly nested)

@[simp] theorem erase_aggregate (items : List Aggregate) :
    erase (aggregate items) = aggregate (erase items) := rfl

@[simp] theorem erase_compute (items : List Computed) :
    erase (compute items) = compute (erase items) := rfl

end Transformation

namespace SelectItem

@[simp] theorem allLeaves_wildcard (p : Leaf → Bool) : allLeaves p wildcard = true := rfl

@[simp] theorem allLeaves_property (p : Leaf → Bool) (path : PropertyPath) :
    allLeaves p (property path) = true := rfl

@[simp] theorem allLeaves_expand (p : Leaf → Bool) (path : PropertyPath) (clauses : ExpandClauses)
    (items : List SelectItem) :
    allLeaves p (expand path clauses items) = (allLeaves p clauses && allLeaves p items) := by
  simp only [allLeaves, Piece.leaves, leaves, leavesAll_eq, List.all_append]
  ac_rfl

@[simp] theorem erase_wildcard : erase wildcard = wildcard := rfl

@[simp] theorem erase_property (path : PropertyPath) : erase (property path) = property path := rfl

@[simp] theorem erase_expand (path : PropertyPath) (clauses : ExpandClauses)
    (items : List SelectItem) :
    erase (expand path clauses items) = expand path (erase clauses) (erase items) :=
  congrArg _ (mapLeavesAll_eq Leaf.typeOnly items)

end SelectItem

end QueryPlans
