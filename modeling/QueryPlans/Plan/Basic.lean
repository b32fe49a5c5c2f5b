import QueryPlans.Layout.Spec
import QueryPlans.Shape.Basic

/-!
# Plan/Basic — compiled plans and the values bound to them

A plan entry is what a compiler made of a shape, with the slots of the request it was made for.
Binding pairs it with the arguments of another request of that shape: every declared slot needs an
argument of its type, and there are as many arguments as slots.
-/

namespace QueryPlans

/-- What a compiler makes of a shape. -/
structure CompiledPlan (P : Type) where
  plan : P
  /-- The plan that counts all entities, if they were asked for. -/
  countPlan : Option P
  layout : Layout

/-- What keeps a shape from having a plan. -/
inductive CompileError where
  /-- The compiler has no plan for the shape. -/
  | rejected (reason : String)
  /-- The rows of the plan have no layout. -/
  | layout (error : LayoutError)
deriving DecidableEq

/-- The text of a fault. -/
def CompileError.message : CompileError → String
  | rejected reason => "plan compilation failed: " ++ reason
  | layout error => error.message

/-- What was compiled for a shape, as it is kept. -/
structure PlanEntry (P : Type) where
  /-- Tells entries apart that were compiled one after the other. -/
  serial : Nat
  compiled : CompiledPlan P
  slots : List Slot
  shapeHash : UInt64

/-- What keeps the arguments of a request from a plan. -/
inductive BindError where
  | missing (name : String)
  | mismatch (name : String) (expected found : ScalarType)
  | countMismatch (offered declared : Nat)
deriving DecidableEq

/-- The text of a fault. -/
def BindError.message : BindError → String
  | missing name => "missing value for parameter '" ++ name ++ "'"
  | mismatch name expected found =>
    "parameter '" ++ name ++ "' expects " ++ expected.label ++ " (got " ++ found.label ++ ")"
  | countMismatch offered declared =>
    "invalid argument: " ++ toString offered ++ " values offered for " ++ toString declared ++
      " parameter slots"

/-- A plan with the values of one request. -/
structure BoundPlan (P : Type) where
  entry : PlanEntry P
  arguments : Arguments

namespace BoundPlan

variable {P : Type}

/-- The value that a parameter of the plan is bound to. -/
def value? (b : BoundPlan P) (name : String) : Option Scalar := b.arguments.get? name

/-- The declared slots, each with its value. -/
def values (b : BoundPlan P) : List (String × Option Scalar) :=
  b.entry.slots.map fun slot => (slot.name, b.value? slot.name)

end BoundPlan

namespace Slot

/-- Whether arguments have a value for the slot. -/
def check (args : Arguments) (slot : Slot) : Except BindError Unit :=
  match args.get? slot.name with
  | none => .error (.missing slot.name)
  | some v => if v.type = slot.type then .ok () else .error (.mismatch slot.name slot.type v.type)

end Slot

/-- **Binds arguments to a plan.**  The first slot without its value is the fault; only then do the
numbers count. -/
def PlanEntry.bind {P : Type} (entry : PlanEntry P) (args : Arguments) :
    Except BindError (BoundPlan P) := do
  entry.slots.forM (Slot.check args)
  if args.size = entry.slots.length then return ⟨entry, args⟩
  else throw (.countMismatch args.size entry.slots.length)

end QueryPlans
