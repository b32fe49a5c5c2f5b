import QueryPlans.Double.Basic

/-!
# Scalar — the values that requests carry and rows hold

A scalar knows its type, so a literal keeps it when it is lifted into a slot.  Two comparisons live
here.  `Scalar.equals` is the one clients see: doubles compare by the float standard, and a
not-a-number differs from itself.  `Scalar.same` is identity, by which rows are grouped: doubles
compare by their bits, so it is the equality of the type (`same_iff_eq`).
-/

namespace QueryPlans

/-! ## Types -/

/-- The types of scalars, in the order of their tags. -/
inductive ScalarType where
  | null
  | bool
  | int
  | float
  | string
  | bytes
  | dateTime
deriving DecidableEq

namespace ScalarType

/-- Every type, in the order of the tags. -/
def all : List ScalarType := [null, bool, int, float, string, bytes, dateTime]

/-- The name used in interchange. -/
def name : ScalarType → String
  | null => "Null"
  | bool => "Bool"
  | int => "Int"
  | float => "Float"
  | string => "String"
  | bytes => "Bytes"
  | dateTime => "DateTime"

/-- The name used in messages. -/
def label : ScalarType → String
  | null => "null"
  | bool => "bool"
  | int => "int"
  | float => "float"
  | string => "string"
  | bytes => "bytes"
  | dateTime => "datetime"

/-- The number that stands for the type in a digest. -/
def tag : ScalarType → UInt8
  | null => 0
  | bool => 1
  | int => 2
  | float => 3
  | string => 4
  | bytes => 5
  | dateTime => 6

end ScalarType

/-! ## Values -/

/-- Two to the power of 127. -/
def Instant.limit : Int := 0x80000000000000000000000000000000

/-- Nanoseconds since the Unix epoch, within 128 signed bits. -/
structure Instant where
  nanos : Int
  inRange : -Instant.limit ≤ nanos ∧ nanos < Instant.limit
deriving DecidableEq

/-- The instant at a number of nanoseconds, if 128 signed bits hold it. -/
def Instant.ofInt? (nanos : Int) : Option Instant :=
  if h : -Instant.limit ≤ nanos ∧ nanos < Instant.limit then some ⟨nanos, h⟩ else none

/-- Every instant is in range. -/
theorem Instant.ofInt?_nanos (t : Instant) : ofInt? t.nanos = some t := by
  rw [ofInt?, dif_pos t.inRange]

/-- A value without parts: a literal of a request, or the content of a column. -/
inductive Scalar where
  | null
  | bool (value : Bool)
  | int (value : Int64)
  | float (value : Double)
  | string (value : String)
  | bytes (value : List UInt8)
  | dateTime (value : Instant)
deriving DecidableEq

namespace Scalar

/-- The type of a scalar. -/
def type : Scalar → ScalarType
  | null => .null
  | bool _ => .bool
  | int _ => .int
  | float _ => .float
  | string _ => .string
  | bytes _ => .bytes
  | dateTime _ => .dateTime

/-- Whether the scalar stands for a value that is absent. -/
def isNull : Scalar → Bool
  | null => true
  | _ => false

/-- The count that a paging clause or a page size carries. -/
def int? : Scalar → Option Int64
  | int n => some n
  | _ => none

/-! ## The two comparisons -/

/-- Equality as clients see it. -/
def equals : Scalar → Scalar → Bool
  | float x, float y => x.ieeeEq y
  | a, b => a == b

/-- Identity, by which rows are grouped. -/
def same : Scalar → Scalar → Bool
  | float x, float y => x.bits == y.bits
  | a, b => a == b

/-- Two values are the same if no bit of them differs. -/
theorem same_iff_eq {a b : Scalar} : a.same b = true ↔ a = b := by
  cases a <;> cases b <;> simp [same, Double.ext_iff]

theorem same_self (a : Scalar) : a.same a = true := same_iff_eq.2 rfl

theorem isNull_iff {a : Scalar} : a.isNull = true ↔ a = null := by
  cases a <;> simp [isNull]

end Scalar

end QueryPlans
