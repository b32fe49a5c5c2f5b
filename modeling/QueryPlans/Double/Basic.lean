/-!
# Double/Basic — 64-bit floats kept as their bits

Rows are grouped by identity, and identity has to tell `-0.0` from `0.0` and one not-a-number from
another, so a double is its bit pattern.  The comparison of the float standard is the function
`Double.ieeeEq` on those bits: it equates the two zeros and equates no not-a-number with anything.
-/

namespace QueryPlans

/-- A 64-bit float, told from others by its bits. -/
@[ext] structure Double where
  bits : UInt64
deriving DecidableEq

namespace Double

/-! ## The fields of the pattern -/

/-- The pattern without its sign. -/
def magnitude (x : Double) : UInt64 := x.bits &&& 0x7fffffffffffffff

/-- Whether the sign is set; zeros and not-a-numbers have one too. -/
def isNegative (x : Double) : Bool := x.bits != x.magnitude

/-- Whether this is one of the two zeros. -/
def isZero (x : Double) : Bool := x.magnitude == 0

/-- Whether this is one of the many not-a-numbers: the pattern lies above that of infinity. -/
def isNaN (x : Double) : Bool := x.magnitude > 0x7ff0000000000000

/-- Whether this is a number: the pattern lies below that of infinity. -/
def isFinite (x : Double) : Bool := x.magnitude < 0x7ff0000000000000

/-- The binary weight of the last place of the significand, as the pattern biases it. -/
def biasedExponent (x : Double) : Nat := (x.magnitude >>> 52).toNat

/-- The bits of the significand that are written down. -/
def fraction (x : Double) : Nat := (x.bits &&& 0x000fffffffffffff).toNat

/-- The significand `m` of a finite double, whose magnitude is `m · 2 ^ exponent`. -/
def significand (x : Double) : Nat :=
  if x.biasedExponent = 0 then x.fraction else x.fraction + 1 <<< 52

/-- The power of two of the last place; subnormal doubles share that of the least normal ones. -/
def exponent (x : Double) : Int := (max x.biasedExponent 1 : Nat) - 1075

/-! ## Comparison and conversion -/

/-- **Equality of the float standard**: the two zeros are equal, and nothing equals a
not-a-number. -/
def ieeeEq (x y : Double) : Bool :=
  !x.isNaN && !y.isNaN && (x == y || (x.isZero && y.isZero))

/-- The float with these bits. -/
def toFloat (x : Double) : Float := Float.ofBits x.bits

/-- The bits of a float. -/
def ofFloat (x : Float) : Double := ⟨x.toBits⟩

end Double

end QueryPlans
