import QueryPlans.Double.Shortest

/-!
# Json/Numeral — numbers as they are written

A numeral is a written number: a whole part, the digits behind the point and an exponent.  It is
read on demand, as an integer (`integer?`) or as a double (`double?`), because a numeral that nobody
reads may name a value that neither can hold.  Written numerals come from integers (`ofInt`) and
from finite doubles (`ofDouble`), which take the fewest digits that name them.
-/

namespace QueryPlans.Json

/-- A decimal digit. -/
abbrev Digit := Fin 10

/-- The lowest digit of a natural number. -/
def lowestDigit (n : Nat) : Digit := ⟨n % 10, Nat.mod_lt n (by decide)⟩

/-- A number as it is written, and not the value that it stands for. -/
structure Numeral where
  negative : Bool
  whole : Nat
  /-- The digits behind the point; without any there is no point. -/
  fraction : List Digit
  exponent : Option Int
deriving DecidableEq

/-! ## Digits -/

/-- The natural number a string of digits writes, continuing from `before`. -/
def natOfDigits (before : Nat) (digits : List Digit) : Nat :=
  digits.foldl (fun n d => 10 * n + d.val) before

/-- The last `places` digits of a natural number. -/
def lastDigits : Nat → Nat → List Digit
  | 0, _ => []
  | places + 1, n => lastDigits places (n / 10) ++ [lowestDigit n]

/-- The digits of a natural number, without leading zeros; zero has one digit. -/
def digitsOfNat (n : Nat) : List Digit :=
  if n < 10 then [lowestDigit n] else digitsOfNat (n / 10) ++ [lowestDigit n]

/-- The character of a digit. -/
def digitChar (d : Digit) : Char := Char.ofNat (48 + d.val)

namespace Numeral

/-! ## Writing -/

/-- A whole number, without a point and without an exponent. -/
def ofInt (n : Int) : Numeral := ⟨n < 0, n.natAbs, [], none⟩

/-- Doubles from `1e-5` up to, but not including, `1e16` are written without an exponent. -/
def isPlain (leadingScale : Int) : Bool := -5 ≤ leadingScale && leadingScale < 16

/-- **The numeral of a finite double.**  A plain numeral has at least one digit behind the point;
any other has one digit before it and an exponent. -/
def ofDouble (x : Double) : Numeral :=
  let d := x.shortest
  let lead := (digitsOfNat d.digits).length - 1 + d.scale
  if isPlain lead then
    let places := max 1 (-d.scale).toNat
    let n := d.digits * tenTo (d.scale + places).toNat
    ⟨x.isNegative, n / tenTo places, lastDigits places n, none⟩
  else
    let places := (digitsOfNat d.digits).length - 1
    ⟨x.isNegative, d.digits / tenTo places, lastDigits places d.digits, some lead⟩

/-- The exponent is written with its sign. -/
def render (n : Numeral) : List Char :=
  let sign := if n.negative then ['-'] else []
  let whole := (digitsOfNat n.whole).map digitChar
  let fraction := if n.fraction.isEmpty then [] else '.' :: n.fraction.map digitChar
  let exponent := match n.exponent with
    | none => []
    | some e =>
      'e' :: (if e < 0 then '-' else '+') :: (digitsOfNat e.natAbs).map digitChar
  sign ++ whole ++ fraction ++ exponent

/-! ## Reading -/

/-- The integer a numeral names, if it has neither point nor exponent and the integer is within 64
bits, signed or not.  A zero with a sign is no integer. -/
def integer? (n : Numeral) : Option Int :=
  if n.fraction.isEmpty && n.exponent.isNone then
    if n.negative then
      if 0 < n.whole && n.whole ≤ UInt64.size / 2 then some (-n.whole) else none
    else if n.whole < UInt64.size then some n.whole else none
  else none

/-- Takes digits into a 64-bit significand for as long as they fit, and says how many were taken. -/
def takeDigits : Nat → List Digit → Nat × Nat
  | significand, [] => (significand, 0)
  | significand, d :: digits =>
    let next := 10 * significand + d.val
    if next < UInt64.size then
      let (s, taken) := takeDigits next digits
      (s, taken + 1)
    else (significand, 0)

/-- `x · 10 ^ exponent` in double arithmetic, if it is finite: one multiplication or division by a
power of ten, after as many divisions by `1e308` as a small exponent needs. -/
def scaleByTen (x : Float) (exponent : Int) : Option Float :=
  if 308 < exponent then
    if x == 0 then some x else none
  else if 0 ≤ exponent then
    let y := x * Float.ofScientific 1 false exponent.toNat
    if (Double.ofFloat y).isFinite then some y else none
  else if -308 ≤ exponent then some (x / Float.ofScientific 1 false exponent.natAbs)
  else if x == 0 then some x
  else scaleByTen (x / Float.ofScientific 1 false 308) (exponent + 308)
termination_by exponent.natAbs

/-- **The double a numeral names.**  Digits of the whole part that no longer fit the significand
count as powers of ten, digits behind the point that no longer fit are dropped, and a numeral beyond
the largest double names none. -/
def double? (n : Numeral) : Option Double :=
  let whole := digitsOfNat n.whole
  let (s, wholeTaken) := takeDigits 0 whole
  let (s, fractionTaken) := takeDigits s n.fraction
  let exponent := (whole.length - wholeTaken : Nat) - (fractionTaken : Int) + n.exponent.getD 0
  (scaleByTen s.toUInt64.toFloat exponent).map fun x =>
    Double.ofFloat (if n.negative then -x else x)

end Numeral

end QueryPlans.Json
