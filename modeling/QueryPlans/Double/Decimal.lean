/-!
# Double/Decimal — decimals, and where the doubles end

A decimal is a natural number and the power of ten that it counts.  `roundsToInfinity` says which
decimals have no finite double nearest to them; it compares magnitudes first, so that a power of ten
is formed only for a decimal near the limit.
-/

namespace QueryPlans

/-- Ten to a natural power. -/
def tenTo (k : Nat) : Nat := Nat.pow 10 k

/-- The decimal `digits · 10 ^ scale`. -/
structure Decimal where
  digits : Nat
  scale : Int
deriving DecidableEq

namespace Decimal

/-- The same decimal without the zeros at the end of its digits. -/
def trim (d : Decimal) : Decimal := go d.digits d
where
  /-- The first argument bounds the number of digits. -/
  go : Nat → Decimal → Decimal
    | 0, d => d
    | n + 1, d => if d.digits ≠ 0 ∧ d.digits % 10 = 0 then go n ⟨d.digits / 10, d.scale + 1⟩ else d

/-- The least scale whose power of ten is above a decimal other than zero. -/
def magnitude (d : Decimal) : Int := (Nat.toDigits 10 d.digits).length + d.scale

/-- Half a place above the largest double: `(2 ^ 54 - 1) · 2 ^ 970`, which has 309 digits. -/
def doubleLimit : Nat := ((1 <<< 54) - 1) <<< 970

/-- **Whether a decimal rounds to infinity**, which it does from `doubleLimit` on. -/
def roundsToInfinity (d : Decimal) : Bool :=
  d.digits != 0 && (309 < d.magnitude ||
    (d.magnitude == 309 && doubleLimit * tenTo (-d.scale).toNat ≤ d.digits * tenTo d.scale.toNat))

end Decimal

end QueryPlans
