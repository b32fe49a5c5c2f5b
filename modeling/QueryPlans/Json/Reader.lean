import QueryPlans.Json.Basic

/-!
# Json/Reader — trees from bytes

The reader takes exactly the texts of RFC 8259.  It works on bytes, since the syntax is all ASCII,
and looks at the bytes of a literal only once the literal has ended: `readText` collects what stands
between the quotes, and `utf8?` says which text that is.
-/

namespace QueryPlans.Json

/-! ## Bytes that have a meaning -/

/-- The byte of an ASCII character. -/
def byteOf (c : Char) : UInt8 := c.toNat.toUInt8

/-- Whether a byte may stand between tokens. -/
def isBlankByte (b : UInt8) : Bool :=
  b == byteOf ' ' || b == byteOf '\n' || b == byteOf '\r' || b == byteOf '\t'

/-- The bytes from the next token on. -/
def skipBlanks : List UInt8 → List UInt8 := List.dropWhile isBlankByte

/-- The digit that a byte writes. -/
def digitOfByte? (b : UInt8) : Option Digit :=
  if byteOf '0' ≤ b && b ≤ byteOf '9' then some (lowestDigit (b.toNat - 48)) else none

/-- The hexadecimal digit that a byte writes, in either case. -/
def hexOfByte? (b : UInt8) : Option Nat :=
  if byteOf '0' ≤ b && b ≤ byteOf '9' then some (b.toNat - 48)
  else if byteOf 'a' ≤ b && b ≤ byteOf 'f' then some (b.toNat - 87)
  else if byteOf 'A' ≤ b && b ≤ byteOf 'F' then some (b.toNat - 55)
  else none

/-! ## Texts -/

/-- What a literal is made of: a byte of the text itself, or an escaped UTF-16 unit. -/
inductive TextPiece where
  | byte (b : UInt8)
  | unit (code : Nat)

/-- The byte that a one-letter escape stands for. -/
def escapedByte? (b : UInt8) : Option UInt8 :=
  if b == byteOf '"' || b == byteOf '\\' || b == byteOf '/' then some b
  else if b == byteOf 'b' then some 8
  else if b == byteOf 'f' then some 12
  else if b == byteOf 'n' then some 10
  else if b == byteOf 'r' then some 13
  else if b == byteOf 't' then some 9
  else none

/-- The pieces up to the closing quote, and what follows it. -/
def readPieces : List UInt8 → Option (List TextPiece × List UInt8)
  | [] => none
  | b :: rest =>
    if b == byteOf '"' then some ([], rest)
    else if b < 0x20 then none
    else if b == byteOf '\\' then
      match rest with
      | [] => none
      | e :: rest =>
        if e == byteOf 'u' then
          match rest with
          | h₁ :: h₂ :: h₃ :: h₄ :: rest => do
            let code := 16 * (16 * (16 * (← hexOfByte? h₁) + (← hexOfByte? h₂)) +
              (← hexOfByte? h₃)) + (← hexOfByte? h₄)
            let (pieces, rest) ← readPieces rest
            some (.unit code :: pieces, rest)
          | _ => none
        else do
          let escaped ← escapedByte? e
          let (pieces, rest) ← readPieces rest
          some (.byte escaped :: pieces, rest)
    else do
      let (pieces, rest) ← readPieces rest
      some (.byte b :: pieces, rest)

/-- Whether a code is the first half of a pair of surrogates. -/
def isHighSurrogate (code : Nat) : Bool := 0xd800 ≤ code && code < 0xdc00

/-- Whether a code is the second half of a pair of surrogates. -/
def isLowSurrogate (code : Nat) : Bool := 0xdc00 ≤ code && code < 0xe000

/-- The bytes that pieces stand for; a surrogate needs its partner. -/
def utf8? : List TextPiece → Option (List UInt8)
  | [] => some []
  | .byte b :: rest => (utf8? rest).map (b :: ·)
  | .unit code :: rest =>
    if isHighSurrogate code then
      match rest with
      | .unit low :: rest =>
        if isLowSurrogate low then
          let c := Char.ofNat (0x10000 + 0x400 * (code - 0xd800) + (low - 0xdc00))
          (utf8? rest).map (String.utf8EncodeChar c ++ ·)
        else none
      | _ => none
    else if isLowSurrogate code then none
    else (utf8? rest).map (String.utf8EncodeChar (Char.ofNat code) ++ ·)

/-- The text of the pieces, if their bytes are well formed. -/
def textOfPieces? (pieces : List TextPiece) : Option String := do
  String.fromUTF8? ⟨(← utf8? pieces).toArray⟩

/-- The text up to the closing quote. -/
def readText (bytes : List UInt8) : Option (Option String × List UInt8) :=
  (readPieces bytes).map fun (pieces, rest) => (textOfPieces? pieces, rest)

/-! ## Numbers -/

/-- The digits that a text starts with. -/
def readDigits : List UInt8 → List Digit × List UInt8
  | [] => ([], [])
  | b :: rest =>
    match digitOfByte? b with
    | none => ([], b :: rest)
    | some d =>
      let (digits, rest) := readDigits rest
      (d :: digits, rest)

/-- A whole part is a zero, or starts with another digit. -/
def readWhole (bytes : List UInt8) : Option (Nat × List UInt8) :=
  match readDigits bytes with
  | ([], _) => none
  | (d :: digits, rest) =>
    if d.val = 0 ∧ digits ≠ [] then none else some (natOfDigits 0 (d :: digits), rest)

/-- Reads the digits behind a point, of which there is at least one. -/
def readFraction (bytes : List UInt8) : Option (List Digit × List UInt8) :=
  match bytes with
  | b :: rest =>
    if b == byteOf '.' then
      match readDigits rest with
      | ([], _) => none
      | found => some found
    else some ([], b :: rest)
  | [] => some ([], [])

/-- Reads an exponent, if there is one; it has at least one digit. -/
def readExponent (bytes : List UInt8) : Option (Option Int × List UInt8) :=
  match bytes with
  | b :: rest =>
    if b == byteOf 'e' || b == byteOf 'E' then
      let (negative, rest) := match rest with
        | s :: rest' =>
          if s == byteOf '-' then (true, rest')
          else if s == byteOf '+' then (false, rest')
          else (false, rest)
        | [] => (false, [])
      match readDigits rest with
      | ([], _) => none
      | (digits, rest) =>
        let n := natOfDigits 0 digits
        some (some (if negative then -n else n), rest)
    else some (none, b :: rest)
  | [] => some (none, [])

/-- **Reads a numeral**, part by part. -/
def readNumeral (bytes : List UInt8) : Option (Numeral × List UInt8) := do
  let (negative, rest) := match bytes with
    | b :: rest => if b == byteOf '-' then (true, rest) else (false, bytes)
    | [] => (false, [])
  let (whole, rest) ← readWhole rest
  let (fraction, rest) ← readFraction rest
  let (exponent, rest) ← readExponent rest
  some (⟨negative, whole, fraction, exponent⟩, rest)

/-! ## Trees -/

/-- What is left after a word. -/
def readWord (word : String) (bytes : List UInt8) : Option (List UInt8) :=
  let letters := word.toList.map byteOf
  if letters.isPrefixOf bytes then some (bytes.drop letters.length) else none

mutual

/-- A tree at the start of the bytes, and what follows it.  The first argument bounds the number of
nested calls. -/
def readTree : Nat → List UInt8 → Option (Json × List UInt8)
  | 0, _ => none
  | bound + 1, bytes =>
    match skipBlanks bytes with
    | [] => none
    | b :: rest =>
      if b == byteOf '"' then (readText rest).map fun (s, rest) => (.string s, rest)
      else if b == byteOf '[' then
        match skipBlanks rest with
        | [] => none
        | c :: rest =>
          if c == byteOf ']' then some (.array [], rest)
          else (readItems bound (c :: rest)).map fun (items, rest) => (.array items, rest)
      else if b == byteOf '\x7b' then
        match skipBlanks rest with
        | [] => none
        | c :: rest =>
          if c == byteOf '\x7d' then some (.object [], rest)
          else (readMembers bound (c :: rest)).map fun (members, rest) => (.object members, rest)
      else if b == byteOf 'n' then (readWord "ull" rest).map (.null, ·)
      else if b == byteOf 't' then (readWord "rue" rest).map (.bool true, ·)
      else if b == byteOf 'f' then (readWord "alse" rest).map (.bool false, ·)
      else (readNumeral (b :: rest)).map fun (n, rest) => (.number n, rest)

/-- The items of an array up to its end. -/
def readItems : Nat → List UInt8 → Option (List Json × List UInt8)
  | 0, _ => none
  | bound + 1, bytes => do
    let (item, rest) ← readTree bound bytes
    match skipBlanks rest with
    | [] => none
    | b :: rest =>
      if b == byteOf ']' then some ([item], rest)
      else if b == byteOf ',' then do
        let (items, rest) ← readItems bound rest
        some (item :: items, rest)
      else none

/-- The members of an object up to its end. -/
def readMembers : Nat → List UInt8 → Option (List (Option String × Json) × List UInt8)
  | 0, _ => none
  | bound + 1, bytes =>
    match skipBlanks bytes with
    | [] => none
    | q :: rest =>
      if q == byteOf '"' then do
        let (name, rest) ← readText rest
        match skipBlanks rest with
        | [] => none
        | c :: rest =>
          if c == byteOf ':' then do
            let (value, rest) ← readTree bound rest
            match skipBlanks rest with
            | [] => none
            | b :: rest =>
              if b == byteOf '\x7d' then some ([(name, value)], rest)
              else if b == byteOf ',' then do
                let (members, rest) ← readMembers bound rest
                some ((name, value) :: members, rest)
              else none
          else none
      else none

end

/-- **The tree of a whole text.**  Two nested calls consume at least one byte. -/
def ofBytes? (bytes : List UInt8) : Option Json :=
  match readTree (2 * bytes.length + 2) bytes with
  | some (j, rest) => if (skipBlanks rest).isEmpty then some j else none
  | none => none

/-- The tree that a text writes. -/
def ofText? (s : String) : Option Json := ofBytes? s.toUTF8.toList

end QueryPlans.Json
