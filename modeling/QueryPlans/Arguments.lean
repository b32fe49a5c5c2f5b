import QueryPlans.Request.Basic

/-!
# Arguments — the literals of one request, each in its slot

Lifting a literal appends an argument: a slot that says where the literal stood and of which type it
was, and the literal itself.  Slots are named by their position, so the name of a slot finds its
argument.  Counts and continuation values have no place in an expression; they are found by their
origin, and of several with one origin the last counts.
-/

namespace QueryPlans

/-- Where in a request a literal stood; a navigation path says in which expansion, the empty path
meaning the request itself. -/
inductive SlotOrigin where
  | key
  | filter (navigation : List String)
  | apply
  | orderBy (navigation : List String)
  | skip (navigation : List String)
  | top (navigation : List String)
  | pageSize (navigation : List String)
  | continuation (property : String)
deriving DecidableEq

/-- Whether arguments are looked up by this origin. -/
def SlotOrigin.isKeyed : SlotOrigin → Bool
  | skip _ | top _ | pageSize _ | continuation _ => true
  | key | filter _ | apply | orderBy _ => false

/-- A place that a literal was lifted from: its name in expressions, its type and its origin. -/
structure Slot where
  name : String
  type : ScalarType
  origin : SlotOrigin
deriving DecidableEq

/-- The slot as expressions refer to it. -/
def Slot.parameter (slot : Slot) : Parameter := ⟨slot.name, slot.type⟩

/-- A lifted literal. -/
structure Argument where
  slot : Slot
  value : Scalar
deriving DecidableEq

/-- The lifted literals of one request, in the order in which they were met. -/
structure Arguments where
  entries : List Argument
deriving DecidableEq

namespace Arguments

/-- A request without literals. -/
def empty : Arguments := ⟨[]⟩

/-- How many literals were lifted. -/
def size (args : Arguments) : Nat := args.entries.length

/-- Whether no literal was lifted. -/
def isEmpty (args : Arguments) : Bool := args.entries.isEmpty

/-- The slots without their values, as a plan declares them. -/
def slots (args : Arguments) : List Slot := args.entries.map Argument.slot

/-- The values without their slots. -/
def values (args : Arguments) : List Scalar := args.entries.map Argument.value

/-- The name of the slot at a position. -/
def slotName (position : Nat) : String := "__p" ++ String.ofList (Nat.toDigits 10 position)

/-- The slot that a literal pushed next would take. -/
def nextSlot (args : Arguments) (origin : SlotOrigin) (value : Scalar) : Slot :=
  ⟨slotName args.size, value.type, origin⟩

/-- Appends a literal. -/
def push (args : Arguments) (origin : SlotOrigin) (value : Scalar) : Arguments :=
  ⟨args.entries ++ [⟨args.nextSlot origin value, value⟩]⟩

/-! ## Look-ups -/

/-- The value in the slot of a name. -/
def get? (args : Arguments) (name : String) : Option Scalar :=
  (args.entries.find? fun a => a.slot.name == name).map Argument.value

/-- The last argument with an origin that is looked up. -/
def byOrigin? (args : Arguments) (origin : SlotOrigin) : Option Scalar :=
  if origin.isKeyed then
    (args.entries.reverse.find? fun a => a.slot.origin == origin).map Argument.value
  else none

/-- How many entities a collection leaves out, if its skip was lifted. -/
def skip? (args : Arguments) (navigation : List String) : Option Int64 :=
  (args.byOrigin? (.skip navigation)).bind Scalar.int?

/-- How many entities a collection has at most, if its top was lifted. -/
def top? (args : Arguments) (navigation : List String) : Option Int64 :=
  (args.byOrigin? (.top navigation)).bind Scalar.int?

/-- How many entities a page of a collection has, if its page size was lifted. -/
def pageSize? (args : Arguments) (navigation : List String) : Option Int64 :=
  (args.byOrigin? (.pageSize navigation)).bind Scalar.int?

/-- The value that a request resumes behind, for a property that it is ordered by. -/
def continuation? (args : Arguments) (property : String) : Option Scalar :=
  args.byOrigin? (.continuation property)

/-! ## What a push does -/

@[simp] theorem size_push (args : Arguments) (origin : SlotOrigin) (value : Scalar) :
    (args.push origin value).size = args.size + 1 := by
  simp [size, push]

@[simp] theorem values_push (args : Arguments) (origin : SlotOrigin) (value : Scalar) :
    (args.push origin value).values = args.values ++ [value] := by
  simp [values, push]

@[simp] theorem slots_push (args : Arguments) (origin : SlotOrigin) (value : Scalar) :
    (args.push origin value).slots = args.slots ++ [args.nextSlot origin value] := by
  simp [slots, push]

end Arguments

end QueryPlans
