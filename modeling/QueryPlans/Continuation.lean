import QueryPlans.Request.Basic
import QueryPlans.Scalar.Interchange
import QueryPlans.Text.Base64
import QueryPlans.Text.Blank

/-!
# Continuation — where a page ended, as text for clients

A continuation holds the values of the last item on a page, by property.  Its text is the URL-safe
form of the compact JSON of its values, a list of pairs.  Decoding ignores blanks around the text
and refuses a continuation without values.
-/

namespace QueryPlans

/-- The values of the last item on a page, each with its property. -/
structure Continuation where
  values : List (String × Scalar)
deriving DecidableEq

/-- What keeps a text from being a continuation. -/
inductive ContinuationError where
  /-- The text is not URL-safe text of bytes. -/
  | notBase64
  /-- The bytes are not the JSON of named values. -/
  | notValues
  | empty
deriving DecidableEq

/-- The text of a fault. -/
def ContinuationError.message : ContinuationError → String
  | notBase64 => "malformed skip token: text is not unpadded URL-safe base64"
  | notValues => "malformed skip token: text does not list named values"
  | empty => "malformed skip token: token carries no components"

namespace Continuation

/-- The first value of a property. -/
def get? (c : Continuation) (property : String) : Option Scalar :=
  (c.values.find? fun value => value.1 == property).map Prod.snd

/-- Equality as clients see it, under which a not-a-number differs from itself. -/
def equals (a b : Continuation) : Bool :=
  a.values.length == b.values.length &&
    (a.values.zip b.values).all fun (x, y) => x.1 == y.1 && x.2.equals y.2

/-- The clause that resumes behind the values. -/
def clause (c : Continuation) : List (String × Expr) :=
  c.values.map fun (property, value) => (property, .literal value)

/-- A continuation as a list of pairs; repeated properties stay. -/
def toJson (c : Continuation) : Json :=
  .array (c.values.map fun (property, value) => .array [.text property, value.toJson])

/-- **The text of a continuation.** -/
def encode (c : Continuation) : String :=
  String.ofList (Text.Base64.encode c.toJson.render.toUTF8.toList)

/-- The values that bytes of JSON list. -/
def valuesOfBytes? (bytes : List UInt8) : Option (List (String × Scalar)) := do
  (← Json.ofBytes? bytes).listOf? (Json.pairOf? Json.text? Scalar.ofJson?)

/-- **The continuation of a text.** -/
def decode (text : String) : Except ContinuationError Continuation :=
  match Text.Base64.decode (Text.trim text.toList) with
  | none => .error .notBase64
  | some bytes =>
    match valuesOfBytes? bytes with
    | none => .error .notValues
    | some [] => .error .empty
    | some values => .ok ⟨values⟩

end Continuation

end QueryPlans
