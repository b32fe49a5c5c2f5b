import QueryPlans.Toml.Basic
import QueryPlans.Toml.Scalar

/-!
# Toml/Reader — documents from text

The reader takes TOML 1.0, apart from arrays of tables, which no settings have.  A document is read
line by line: a header moves to its table, and a key adds its value to the table of the last header.
How deep values nest and how many parts a key has is limited (`nestingLimit`).
-/

namespace QueryPlans.Toml

/-! ## Blanks and comments -/

/-- Whether a character may stand between the tokens of a line. -/
def isSpace (c : Char) : Bool := c == ' ' || c == '\t'

/-- The characters from the next token of the line on. -/
def skipSpaces : List Char → List Char := List.dropWhile isSpace

/-- A character that may stand in a comment or in quotes. -/
def isPrintable (c : Char) : Bool := c == '\t' || (0x20 ≤ c.toNat && c.toNat != 0x7f)

/-- Skips a comment, if there is one. -/
def skipComment : List Char → List Char
  | '#' :: rest => rest.dropWhile isPrintable
  | s => s

/-- What follows a line break. -/
def lineBreak? : List Char → Option (List Char)
  | '\n' :: rest => some rest
  | '\r' :: '\n' :: rest => some rest
  | _ => none

/-- Skips blanks, comments and line breaks; the first argument bounds the number of lines. -/
def skipLines : Nat → List Char → List Char
  | 0, s => s
  | bound + 1, s =>
    let s := skipComment (skipSpaces s)
    match lineBreak? s with
    | some rest => skipLines bound rest
    | none => s

/-! ## Quotes -/

/-- The character that hexadecimal digits name. -/
def codePoint? (digits : List Char) : Option Char := do
  let n ← digits.foldlM (fun n c => do some (16 * n + (← digitIn? 16 c))) 0
  if n.isValidChar then some (Char.ofNat n) else none

/-- The character of an escape, and what follows. -/
def escape? : List Char → Option (Char × List Char)
  | 'b' :: rest => some ('\x08', rest)
  | 't' :: rest => some ('\t', rest)
  | 'n' :: rest => some ('\n', rest)
  | 'f' :: rest => some ('\x0c', rest)
  | 'r' :: rest => some ('\r', rest)
  | '"' :: rest => some ('"', rest)
  | '\\' :: rest => some ('\\', rest)
  | 'u' :: rest => if rest.length < 4 then none else (codePoint? (rest.take 4)).map (·, rest.drop 4)
  | 'U' :: rest => if rest.length < 8 then none else (codePoint? (rest.take 8)).map (·, rest.drop 8)
  | _ => none

/-- The text up to the closing double quote; the first argument bounds its length. -/
def basic? : Nat → List Char → Option (List Char × List Char)
  | 0, _ => none
  | _ + 1, [] => none
  | _ + 1, '"' :: rest => some ([], rest)
  | bound + 1, '\\' :: rest => do
    let (c, rest) ← escape? rest
    let (text, rest) ← basic? bound rest
    some (c :: text, rest)
  | bound + 1, c :: rest => do
    if isPrintable c then
      let (text, rest) ← basic? bound rest
      some (c :: text, rest)
    else none

/-- The text up to the closing single quote. -/
def literal? (s : List Char) : Option (List Char × List Char) :=
  let text := s.takeWhile fun c => c != '\'' && isPrintable c
  match s.drop text.length with
  | '\'' :: rest => some (text, rest)
  | _ => none

/-- What follows three quotes, up to two of which may precede the closing ones. -/
def closing? (quote : Char) : List Char → Option (List Char)
  | a :: b :: c :: rest =>
    if a == quote && b == quote && c == quote then
      match rest with
      | d :: e :: more =>
        if d == quote && e == quote then some more
        else if d == quote then some (e :: more)
        else some rest
      | [d] => if d == quote then some [] else some rest
      | [] => some []
    else none
  | _ => none

/-- What follows a text of several lines; the first argument bounds its length.  A backslash before
the end of a line is no escape. -/
def skipMultiline (quote : Char) (escapes : Bool) : Nat → List Char → Option (List Char)
  | 0, _ => none
  | bound + 1, s =>
    match closing? quote s with
    | some rest => some rest
    | none =>
      match lineBreak? s with
      | some rest => skipMultiline quote escapes bound rest
      | none =>
        match s with
        | [] => none
        | c :: rest =>
          if escapes && c == '\\' then
            match escape? rest with
            | some (_, rest) => skipMultiline quote escapes bound rest
            | none => do skipMultiline quote escapes bound (← lineBreak? (skipSpaces rest))
          else if isPrintable c then skipMultiline quote escapes bound rest
          else none

/-! ## Keys -/

/-- Whether a key may have the character without quotes. -/
def isBareKeyChar (c : Char) : Bool := c.isAlphanum || c == '_' || c == '-'

/-- One part of a key. -/
def keyPart? (s : List Char) : Option (String × List Char) :=
  match s with
  | '"' :: rest => (basic? s.length rest).map fun (text, rest) => (String.ofList text, rest)
  | '\'' :: rest => (literal? rest).map fun (text, rest) => (String.ofList text, rest)
  | _ =>
    let name := s.takeWhile isBareKeyChar
    if name.isEmpty then none else some (String.ofList name, s.drop name.length)

/-- The greatest number of parts of a key, and of arrays and inline tables around a value. -/
def nestingLimit : Nat := 79

/-- The parts of a key, and what follows it and its blanks; the first argument bounds their
number. -/
def key? : Nat → List Char → Option (List String × List Char)
  | 0, _ => none
  | bound + 1, s => do
    let (part, rest) ← keyPart? (skipSpaces s)
    match skipSpaces rest with
    | '.' :: rest => do
      let (parts, rest) ← key? bound rest
      some (part :: parts, rest)
    | rest => some ([part], rest)

/-! ## Values -/

mutual

/-- A value; the first argument bounds the number of nested calls, and the second how deep arrays
and inline tables nest in the value. -/
def value? : Nat → Nat → List Char → Option (Toml × List Char)
  | 0, _, _ => none
  | bound + 1, nesting, s =>
    match s with
    | '"' :: '"' :: '"' :: rest => (skipMultiline '"' true s.length rest).map (.other, ·)
    | '\'' :: '\'' :: '\'' :: rest => (skipMultiline '\'' false s.length rest).map (.other, ·)
    | '"' :: rest => (basic? s.length rest).map fun (_, rest) => (.other, rest)
    | '\'' :: rest => (literal? rest).map fun (_, rest) => (.other, rest)
    | '[' :: rest =>
      match nesting with
      | 0 => none
      | nesting + 1 => (items? bound nesting rest).map fun (items, rest) => (.array items, rest)
    | '\x7b' :: rest =>
      match nesting, skipSpaces rest with
      | 0, _ => none
      | _, '\x7d' :: rest => some (.table .inline [], rest)
      | nesting + 1, rest =>
        (inline? bound nesting rest []).map fun (entries, rest) => (.table .inline entries, rest)
    | s => do
      let (word, rest) := takeWord s
      match ← word? word with
      | .boolean b => some (.boolean b, rest)
      | .integer n => some (.integer n, rest)
      | .other => some (.other, rest)

/-- The items of an array up to its end; a comma may stand behind the last. -/
def items? : Nat → Nat → List Char → Option (List Toml × List Char)
  | 0, _, _ => none
  | bound + 1, nesting, s =>
    match skipLines s.length s with
    | ']' :: rest => some ([], rest)
    | s => do
      let (item, rest) ← value? bound nesting s
      match skipLines rest.length rest with
      | ']' :: rest => some ([item], rest)
      | ',' :: rest => do
        let (items, rest) ← items? bound nesting rest
        some (item :: items, rest)
      | _ => none

/-- The entries of an inline table up to its end, added to those before. -/
def inline? : Nat → Nat → List Char → Entries → Option (Entries × List Char)
  | 0, _, _, _ => none
  | bound + 1, nesting, s, entries => do
    let (key, rest) ← key? nestingLimit s
    match rest with
    | '=' :: rest => do
      let (value, rest) ← value? bound nesting (skipSpaces rest)
      let entries ← putValue value key entries
      match skipSpaces rest with
      | '\x7d' :: rest => some (entries, rest)
      | ',' :: rest => inline? bound nesting rest entries
      | _ => none
    | _ => none

end

/-! ## Documents -/

/-- What has been read of a document. -/
structure Progress where
  entries : Entries
  /-- The table of the last header. -/
  current : List String

/-- What follows a line, whose end is an end of text or a line break behind a comment. -/
def endOfLine? (s : List Char) : Option (List Char) :=
  match skipComment (skipSpaces s) with
  | [] => some []
  | s => lineBreak? s

/-- One line: nothing, a header, or a key with its value. -/
def line? (progress : Progress) (s : List Char) : Option (Progress × List Char) :=
  match skipSpaces s with
  | '[' :: rest => do
    let (key, rest) ← key? nestingLimit rest
    match rest with
    | ']' :: rest =>
      some (⟨← putHeader key progress.entries, key⟩, rest)
    | _ => none
  | [] => some (progress, [])
  | c :: rest =>
    if c == '#' || c == '\n' || c == '\r' then some (progress, c :: rest)
    else do
      let (key, rest) ← key? nestingLimit (c :: rest)
      match rest with
      | '=' :: rest => do
        let (value, rest) ← value? (2 * rest.length + 2) nestingLimit (skipSpaces rest)
        let entries ← updateAt (putValue value key) progress.current progress.entries
        some ({ progress with entries }, rest)
      | _ => none

/-- All lines; the first argument bounds their number. -/
def lines? : Nat → Progress → List Char → Option Entries
  | 0, _, _ => none
  | _ + 1, progress, [] => some progress.entries
  | bound + 1, progress, s => do
    let (progress, rest) ← line? progress s
    lines? bound progress (← endOfLine? rest)

/-- **The entries of a document.**  A byte order mark may stand in front. -/
def ofText? (s : String) : Option Entries :=
  let chars := match s.toList with
    | '\ufeff' :: rest => rest
    | chars => chars
  lines? (chars.length + 1) ⟨[], []⟩ chars

end QueryPlans.Toml
