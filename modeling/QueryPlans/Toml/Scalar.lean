import QueryPlans.Double.Decimal

/-!
# Toml/Scalar — unquoted values

An unquoted value is a word of letters, digits and a few marks.  A word is a truth value, an
integer, a float or a point in time; only the first two have a meaning for settings, so the others
are recognised and not evaluated, except that a float may not be too large.
-/

namespace QueryPlans.Toml

/-- The value of a word. -/
inductive Word where
  | boolean (value : Bool)
  | integer (value : Int)
  | other
deriving DecidableEq

/-! ## Digits -/

/-- The value of a digit in a base up to sixteen. -/
def digitIn? (base : Nat) (c : Char) : Option Nat :=
  let value :=
    if '0' ≤ c ∧ c ≤ '9' then some (c.toNat - 48)
    else if 'a' ≤ c ∧ c ≤ 'f' then some (c.toNat - 87)
    else if 'A' ≤ c ∧ c ≤ 'F' then some (c.toNat - 55)
    else none
  value.filter (· < base)

/-- The number that digits write in a base; an underscore may stand between two digits. -/
def digitsIn? (base : Nat) : List Char → Option Nat
  | [] => none
  | c :: rest => do go (← digitIn? base c) rest
where
  /-- Continues a number behind one of its digits. -/
  go (n : Nat) : List Char → Option Nat
    | [] => some n
    | '_' :: c :: rest => do go (base * n + (← digitIn? base c)) rest
    | c :: rest => do go (base * n + (← digitIn? base c)) rest

/-- Whether these are decimal digits, underscores between them allowed. -/
def isDigits (s : List Char) : Bool := (digitsIn? 10 s).isSome

/-- Whether there is a minus in front. -/
def isNegative (s : List Char) : Bool := s.head? == some '-'

/-- A word without its sign. -/
def unsigned : List Char → List Char
  | '+' :: rest | '-' :: rest => rest
  | s => s

/-- The integer that digits write behind an optional sign. -/
def signed? (s : List Char) : Option Int :=
  (digitsIn? 10 (unsigned s)).map fun n => if isNegative s then -n else n

/-! ## Integers -/

/-- Decimal digits have no leading zero. -/
def isDecimal : List Char → Bool
  | ['0'] => true
  | '0' :: _ => false
  | s => isDigits s

/-- An integer within 64 signed bits; only a decimal one has a sign. -/
def integer? (s : List Char) : Option Int :=
  let value : Option Int := match s with
    | '0' :: 'x' :: rest => (digitsIn? 16 rest).map Int.ofNat
    | '0' :: 'o' :: rest => (digitsIn? 8 rest).map Int.ofNat
    | '0' :: 'b' :: rest => (digitsIn? 2 rest).map Int.ofNat
    | _ => if isDecimal (unsigned s) then signed? s else none
  value.filter fun n => Int64.minValue.toInt ≤ n && n ≤ Int64.maxValue.toInt

/-! ## Floats -/

/-- Splits at the first character that is one of the marks. -/
def splitAtMark (marks s : List Char) : List Char × Option (List Char) :=
  let head := s.takeWhile (!marks.contains ·)
  match s.drop head.length with
  | [] => (head, none)
  | _ :: rest => (head, some rest)

/-- The decimal that digits with a fraction or an exponent write. -/
def decimal? (s : List Char) : Option Decimal := do
  let (mantissa, exponent) := splitAtMark ['e', 'E'] s
  let (whole, fraction) := splitAtMark ['.'] mantissa
  if (fraction.isSome || exponent.isSome) && isDecimal whole && fraction.all isDigits then
    let fraction := fraction.getD []
    let exponent ← signed? (exponent.getD ['0'])
    let places := (fraction.filter Char.isDigit).length
    some ⟨← digitsIn? 10 (whole ++ fraction), exponent - places⟩
  else none

/-- A float is a word for a value that is not finite, or digits; without a minus, digits may not
round to infinity. -/
def isFloat (s : List Char) : Bool :=
  let word := unsigned s
  word == "inf".toList || word == "nan".toList ||
    (decimal? word).any fun d => isNegative s || !d.roundsToInfinity

/-! ## Points in time -/

/-- A number of exactly so many digits. -/
def fixedDigits? (width : Nat) (s : List Char) : Option Nat :=
  if s.length = width && s.all Char.isDigit then digitsIn? 10 s else none

/-- How many days a month of a year has. -/
def daysInMonth (year month : Nat) : Nat :=
  if month = 2 then if (year % 4 = 0 ∧ year % 100 ≠ 0) ∨ year % 400 = 0 then 29 else 28
  else if month = 4 ∨ month = 6 ∨ month = 9 ∨ month = 11 then 30
  else 31

/-- Whether this is a day of the calendar, year first. -/
def isDate (s : List Char) : Bool :=
  match s.splitOn '-' with
  | [y, m, d] =>
    match fixedDigits? 4 y, fixedDigits? 2 m, fixedDigits? 2 d with
    | some y, some m, some d => 1 ≤ m && m ≤ 12 && 1 ≤ d && d ≤ daysInMonth y m
    | _, _, _ => false
  | _ => false

/-- Hours and minutes. -/
def isClock (h m : List Char) : Bool :=
  (fixedDigits? 2 h).any (· < 24) && (fixedDigits? 2 m).any (· < 60)

/-- Whether this is a time of day; fractions of a second may follow, and a leap second. -/
def isTime (s : List Char) : Bool :=
  let (time, fraction) := splitAtMark ['.'] s
  match time.splitOn ':' with
  | [h, m, sec] =>
    isClock h m && (fixedDigits? 2 sec).any (· ≤ 60) &&
      fraction.all fun f => !f.isEmpty && f.all Char.isDigit
  | _ => false

/-- A time that may be followed by its distance from universal time. -/
def isZonedTime (s : List Char) : Bool :=
  let (time, zone) := splitAtMark ['Z', 'z', '+', '-'] s
  isTime time &&
    match zone with
    | none => true
    | some zone =>
      let mark := (s.drop time.length).head?
      if mark = some 'Z' ∨ mark = some 'z' then zone.isEmpty
      else match zone.splitOn ':' with
        | [h, m] => isClock h m
        | _ => false

/-- Whether this is a time, a date, or both. -/
def isPointInTime (s : List Char) : Bool :=
  let (date, time) := splitAtMark ['T', 't', ' '] s
  isTime s || (isDate date && time.all isZonedTime)

/-! ## Words -/

/-- Whether a value without quotes may have the character. -/
def isWordChar (c : Char) : Bool := c.isAlphanum || "+-_.:".toList.contains c

/-- A word, which goes on behind a blank if a date stands before it and a time behind it. -/
def takeWord (s : List Char) : List Char × List Char :=
  let word := s.takeWhile isWordChar
  match s.drop word.length with
  | ' ' :: c :: rest =>
    if isDate word && c.isDigit then
      let time := (c :: rest).takeWhile isWordChar
      (word ++ ' ' :: time, (c :: rest).drop time.length)
    else (word, ' ' :: c :: rest)
  | rest => (word, rest)

/-- The value that a word is, if it is one. -/
def word? (s : List Char) : Option Word :=
  if s == "true".toList then some (.boolean true)
  else if s == "false".toList then some (.boolean false)
  else match integer? s with
    | some n => some (.integer n)
    | none => if isFloat s || isPointInTime s then some .other else none

end QueryPlans.Toml
