import QueryPlans.Json.Numeral

/-!
# Json/Basic — trees of the interchange format

A tree keeps what was written: the order of members, repeated members and the digits of numbers.
What repetition means is for the reader of a record to say, and `fields?` is that reader: a record
is an object that has each of its members at most once, or an array of exactly the members' values
in order.  `variant?` is the other reader of structure: an alternative is its name, or an object
whose only member has that name.  The fields of an alternative are always named (`namedFields?`).
-/

namespace QueryPlans

/-- A text is `none` where the literal is well formed and names no text: a surrogate without its
partner was escaped, or the bytes are not UTF-8. -/
inductive Json where
  | null
  | bool (value : Bool)
  | number (numeral : Json.Numeral)
  | string (text : Option String)
  | array (items : List Json)
  | object (members : List (Option String × Json))
deriving Inhabited

namespace Json

/-! ## Making trees -/

/-- A text that is well formed. -/
def text (s : String) : Json := .string (some s)

/-- A whole number as it is written without a point or an exponent. -/
def int (n : Int) : Json := .number (.ofInt n)

/-- A natural number. -/
def nat (n : Nat) : Json := .int n

/-- An object whose members are named by well-formed texts. -/
def record (members : List (String × Json)) : Json :=
  .object (members.map fun (name, value) => (some name, value))

/-- An absent value is written as null. -/
def ofOption {α : Type} (toJson : α → Json) : Option α → Json
  | none => .null
  | some a => toJson a

/-! ## Reading leaves -/

/-- The truth value that a tree is. -/
def bool? : Json → Option Bool
  | bool b => some b
  | _ => none

/-- The text that a tree is; a text that is not well formed is none. -/
def text? : Json → Option String
  | string s => s
  | _ => none

/-- The whole number that a tree is, if it is written as one. -/
def integer? : Json → Option Int
  | number n => n.integer?
  | _ => none

/-- An integer between the bounds, both included. -/
def integerWithin? (low high : Int) (j : Json) : Option Int :=
  j.integer?.filter fun n => low ≤ n && n ≤ high

/-- A natural number within 64 bits. -/
def nat? (j : Json) : Option Nat := (j.integerWithin? 0 (UInt64.size - 1 : Nat)).map Int.toNat

/-- The number that a tree is, if 64 signed bits hold it. -/
def int64? (j : Json) : Option Int64 :=
  (j.integerWithin? Int64.minValue.toInt Int64.maxValue.toInt).map Int64.ofInt

/-- The double nearest to the number that a tree is. -/
def double? : Json → Option Double
  | number n => n.double?
  | _ => none

/-- The items of an array. -/
def items? : Json → Option (List Json)
  | array items => some items
  | _ => none

/-- A list, all items of which are to be read. -/
def listOf? {α : Type} (ofJson? : Json → Option α) (j : Json) : Option (List α) := do
  (← j.items?).mapM ofJson?

/-- An array of exactly two. -/
def pairOf? {α β : Type} (first? : Json → Option α) (second? : Json → Option β) :
    Json → Option (α × β)
  | array [a, b] => do some (← first? a, ← second? b)
  | _ => none

/-! ## Reading records and alternatives -/

/-- The members of an object whose names all are texts. -/
def members? : Json → Option (List (String × Json))
  | object members => members.mapM fun (name, value) => name.map (·, value)
  | _ => none

/-- The value of a member that occurs at most once: `some none` where it does not occur. -/
def member? (members : List (String × Json)) (name : String) : Option (Option Json) :=
  match members.filter fun member => member.1 == name with
  | [] => some none
  | [member] => some (some member.2)
  | _ => none

/-- The fields of an object, each with its value where it has one.  Members with other names are
ignored. -/
def namedFields? (names : List String) (j : Json) : Option (List (Option Json)) := do
  names.mapM (member? (← j.members?))

/-- **The fields of a record**, which is an object or an array of all the values. -/
def fields? (names : List String) : Json → Option (List (Option Json))
  | array items => if items.length = names.length then some (items.map some) else none
  | j => j.namedFields? names

/-- A field that may be left out or null. -/
def optional? {α : Type} (ofJson? : Json → Option α) : Option Json → Option (Option α)
  | none | some null => some none
  | some j => (ofJson? j).map some

/-- **The name of an alternative and its payload**, if it has one. -/
def variant? : Json → Option (String × Option Json)
  | string (some name) => some (name, none)
  | object [(some name, payload)] => some (name, some payload)
  | _ => none

/-- The alternative of a list whose name a tree is. -/
def named? {α : Type} (name : α → String) (all : List α) (j : Json) : Option α :=
  match j.variant? with
  | some (found, none) | some (found, some null) => all.find? fun a => name a == found
  | _ => none

/-- The nesting depth of a tree, which bounds every recursion on its parts. -/
def depth : Json → Nat
  | array items => depthAll items + 1
  | object members => depthMembers members + 1
  | _ => 1
where
  /-- The greatest depth among items. -/
  depthAll : List Json → Nat
    | [] => 0
    | j :: rest => max j.depth (depthAll rest)
  /-- The greatest depth among members. -/
  depthMembers : List (Option String × Json) → Nat
    | [] => 0
    | (_, j) :: rest => max j.depth (depthMembers rest)

end Json

end QueryPlans
