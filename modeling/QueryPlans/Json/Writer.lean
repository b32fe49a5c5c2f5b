import QueryPlans.Json.Basic

/-!
# Json/Writer — compact text of trees

One tree has one written form: no blanks, members in order, and only the quote, the backslash and
the control characters escaped.
-/

namespace QueryPlans.Json

/-- The character of a hexadecimal digit, in lower case. -/
def hexChar (n : Nat) : Char := Char.ofNat (if n < 10 then 48 + n else 87 + n)

/-- A control character has a one-letter escape or is written by its code. -/
def escapeChar (c : Char) : List Char :=
  if c = '"' then ['\\', '"']
  else if c = '\\' then ['\\', '\\']
  else if c = '\x08' then ['\\', 'b']
  else if c = '\t' then ['\\', 't']
  else if c = '\n' then ['\\', 'n']
  else if c = '\x0c' then ['\\', 'f']
  else if c = '\r' then ['\\', 'r']
  else if c.toNat < 0x20 then
    ['\\', 'u', '0', '0', hexChar (c.toNat / 16), hexChar (c.toNat % 16)]
  else [c]

/-- A literal that names no text is written as a surrogate on its own. -/
def quote : Option String → List Char
  | some s => '"' :: (s.toList.flatMap escapeChar ++ ['"'])
  | none => '"' :: '\\' :: "ud800\"".toList

mutual

/-- **The compact text of a tree**: no blanks, and members as they are. -/
def write : Json → List Char
  | null => "null".toList
  | bool true => "true".toList
  | bool false => "false".toList
  | number n => n.render
  | string s => quote s
  | array [] => ['[', ']']
  | array (j :: rest) => '[' :: (j.write ++ writeItems rest)
  | object [] => ['\x7b', '\x7d']
  | object ((name, j) :: rest) => '\x7b' :: (quote name ++ ':' :: (j.write ++ writeMembers rest))

/-- The items after the first, up to the end of the array. -/
def writeItems : List Json → List Char
  | [] => [']']
  | j :: rest => ',' :: (j.write ++ writeItems rest)

/-- The members after the first, up to the end of the object. -/
def writeMembers : List (Option String × Json) → List Char
  | [] => ['\x7d']
  | (name, j) :: rest => ',' :: (quote name ++ ':' :: (j.write ++ writeMembers rest))

end

/-- **The compact text of a tree.** -/
def render (j : Json) : String := String.ofList j.write

end QueryPlans.Json
