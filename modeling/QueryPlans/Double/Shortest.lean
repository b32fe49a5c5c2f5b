import QueryPlans.Double.Basic
import QueryPlans.Double.Decimal

/-!
# Double/Shortest — the fewest decimal digits that name a double

The reals that round to a double form an interval around it, its ends included exactly when the
significand is even.  The digits of a double are those of the point of the coarsest decimal grid
that meets the interval; of two such points the nearer one, and of two equally near the one whose
last digit is even.  All of it is exact arithmetic on natural numbers.
-/

namespace QueryPlans

namespace Double

/-- The value of a double and the ends of its rounding interval, over one denominator. -/
structure RoundingInterval where
  low : Nat
  value : Nat
  high : Nat
  denominator : Nat
  closed : Bool

/-- The interval of a finite positive magnitude.  Below a power of two the neighbours are nearer, so
the lower half of the interval is half as long. -/
def roundingInterval (x : Double) : RoundingInterval :=
  let m := x.significand
  let q := x.exponent - 2
  let below := if x.fraction = 0 ∧ 1 < x.biasedExponent then 1 else 2
  let scale := 1 <<< q.toNat
  { low := (4 * m - below) * scale
    value := 4 * m * scale
    high := (4 * m + 2) * scale
    denominator := 1 <<< (-q).toNat
    closed := m % 2 == 0 }

/-- The point of the grid of step `10 ^ scale` that names the interval, if there is one. -/
def RoundingInterval.gridPoint? (i : RoundingInterval) (scale : Int) : Option Decimal :=
  let up := tenTo (-scale).toNat
  let unit := i.denominator * tenTo scale.toNat
  let value := i.value * up
  let floor := value / unit
  let meets (c : Nat) : Bool :=
    if i.closed then i.low * up ≤ c * unit && c * unit ≤ i.high * up
    else i.low * up < c * unit && c * unit < i.high * up
  let excess := value - floor * unit
  let shortfall := (floor + 1) * unit - value
  match meets floor, meets (floor + 1) with
  | false, false => none
  | true, false => some ⟨floor, scale⟩
  | false, true => some ⟨floor + 1, scale⟩
  | true, true =>
    if excess < shortfall ∨ (excess = shortfall ∧ floor % 2 = 0) then some ⟨floor, scale⟩
    else some ⟨floor + 1, scale⟩

/-- The decimal exponent of the leading digit, from the binary one: `30103 / 100000` is close enough
to the logarithm for every exponent a double can have. -/
def leadingScale (x : Double) : Int :=
  let i := x.roundingInterval
  let guess := ((x.significand.log2 + x.exponent) * 30103).fdiv 100000
  let next := guess + 1
  if i.denominator * tenTo next.toNat ≤ i.value * tenTo (-next).toNat then next else guess

/-- **The shortest decimal that rounds to the magnitude of a finite double.**  Seventeen digits
always suffice. -/
def shortest (x : Double) : Decimal :=
  if x.isZero then ⟨0, 0⟩
  else
    let i := x.roundingInterval
    let lead := x.leadingScale
    let grids := (List.range 17).map fun (n : Nat) => lead - n
    ((grids.findSome? i.gridPoint?).getD ⟨0, 0⟩).trim

end Double

end QueryPlans
