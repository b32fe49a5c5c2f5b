import QueryPlans.Json.Reader
import QueryPlans.Json.Writer
import QueryPlans.Scalar

/-!
# Scalar/Interchange — scalars as trees

A scalar is written as its type name and its payload, under the names `t` and `v`; null has no
payload, and a double that is not finite has the payload null.  Reading also takes an array of the
bare name and the payload, an instant as decimal text, and members in any order.
-/

namespace QueryPlans

/-! ## Writing -/

namespace Scalar

/-- The payload of a scalar other than null. -/
def payload : Scalar → Json
  | null => .null
  | bool b => .bool b
  | int n => .int n.toInt
  | float x => if x.isFinite then .number (.ofDouble x) else .null
  | string s => .text s
  | bytes b => .array (b.map fun byte => .nat byte.toNat)
  | dateTime t => .int t.nanos

/-- A scalar as its type and what is written of its value; null has no value. -/
def toJson (v : Scalar) : Json :=
  let tag := ("t", Json.text v.type.name)
  if v.isNull then .record [tag] else .record [tag, ("v", v.payload)]

/-- The compact text of a scalar. -/
def render (v : Scalar) : String := v.toJson.render

end Scalar

/-! ## Reading -/

/-- A type by its name. -/
def ScalarType.ofJson? : Json → Option ScalarType := Json.named? name all

/-- The integer that ASCII digits write after an optional sign. -/
def Instant.ofText? (s : String) : Option Instant :=
  let (negative, digits) := match s.toList with
    | '-' :: rest => (true, rest)
    | '+' :: rest => (false, rest)
    | rest => (false, rest)
  if digits.isEmpty || !digits.all Char.isDigit then none
  else
    let n := digits.foldl (fun (n : Nat) c => 10 * n + (c.toNat - 48)) 0
    ofInt? (if negative then -n else n)

/-- An instant is an integer or decimal text. -/
def Instant.ofJson? (j : Json) : Option Instant :=
  match j.integer? with
  | some n => ofInt? n
  | none => j.text?.bind ofText?

namespace Scalar

/-- The scalar of a type with a payload.  Only null goes without one. -/
def ofPayload? (type : ScalarType) (payload : Option Json) : Option Scalar :=
  match type, payload with
  | .null, none | .null, some .null => some .null
  | .bool, some j => j.bool?.map bool
  | .int, some j => j.int64?.map int
  | .float, some j => j.double?.map float
  | .string, some j => j.text?.map string
  | .bytes, some j =>
    (j.listOf? (·.integerWithin? 0 255)).map fun b => bytes (b.map fun n => n.toNat.toUInt8)
  | .dateTime, some j => (Instant.ofJson? j).map dateTime
  | _, _ => none

/-- The scalar of a record, or of the two values of such a record in a list. -/
def ofJson? : Json → Option Scalar
  | .array [.string tag, payload] => do
    ofPayload? (← ScalarType.ofJson? (.string tag)) (some payload)
  | j => do
    match ← j.namedFields? ["t", "v"] with
    | [some tag, payload] => ofPayload? (← ScalarType.ofJson? tag) payload
    | _ => none

/-- The scalar that a text writes. -/
def ofText? (s : String) : Option Scalar := do ofJson? (← Json.ofText? s)

end Scalar

end QueryPlans
