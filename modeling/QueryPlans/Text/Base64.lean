/-!
# Text/Base64 — bytes as URL-safe text

Three bytes become four symbols of `A–Z a–z 0–9 - _`, and one or two bytes at the end become two or
three symbols without padding.  Decoding is strict: the bits that the last symbol does not use have
to be zero, so a text that decodes is the text that encoding writes.
-/

namespace QueryPlans.Text.Base64

/-- Six bits, which one character writes. -/
abbrev Sextet := Fin 64

/-- The character of six bits, safe in a URL. -/
def symbol (n : Sextet) : Char :=
  if n < 26 then Char.ofNat (65 + n)
  else if n < 52 then Char.ofNat (71 + n)
  else if n < 62 then Char.ofNat (n - 4)
  else if n = 62 then '-'
  else '_'

/-- The six bits of a character. -/
def sextet? (c : Char) : Option Sextet :=
  if 'A' ≤ c ∧ c ≤ 'Z' then some (Fin.ofNat 64 (c.toNat - 65))
  else if 'a' ≤ c ∧ c ≤ 'z' then some (Fin.ofNat 64 (c.toNat - 71))
  else if '0' ≤ c ∧ c ≤ '9' then some (Fin.ofNat 64 (c.toNat + 4))
  else if c = '-' then some 62
  else if c = '_' then some 63
  else none

/-- A symbol tells its six bits. -/
theorem sextet?_symbol (n : Sextet) : sextet? (symbol n) = some n := by
  revert n; decide

/-- The six bits of `n` above the lowest `shift`. -/
def sextetAt (n shift : Nat) : Sextet := Fin.ofNat 64 (n >>> shift)

/-- **The text of bytes**: four characters for three bytes, and no padding at the end. -/
def encode : List UInt8 → List Char
  | [] => []
  | [a] =>
    let n := a.toNat * 16
    [symbol (sextetAt n 6), symbol (sextetAt n 0)]
  | [a, b] =>
    let n := (a.toNat * 256 + b.toNat) * 4
    [symbol (sextetAt n 12), symbol (sextetAt n 6), symbol (sextetAt n 0)]
  | a :: b :: c :: rest =>
    let n := (a.toNat * 256 + b.toNat) * 256 + c.toNat
    symbol (sextetAt n 18) :: symbol (sextetAt n 12) :: symbol (sextetAt n 6) ::
      symbol (sextetAt n 0) :: encode rest

/-- The byte of `n` above its lowest `shift` bits. -/
def byteAt (n shift : Nat) : UInt8 := (n >>> shift).toUInt8

/-- A text is refused for a character that is no symbol, for a symbol alone at the end, and for bits
that no byte uses. -/
def decode : List Char → Option (List UInt8)
  | [] => some []
  | [_] => none
  | [a, b] => do
    let n := (← sextet? a).val * 64 + (← sextet? b).val
    if n % 16 = 0 then some [byteAt n 4] else none
  | [a, b, c] => do
    let n := ((← sextet? a).val * 64 + (← sextet? b).val) * 64 + (← sextet? c).val
    if n % 4 = 0 then some [byteAt n 10, byteAt n 2] else none
  | a :: b :: c :: d :: rest => do
    let n := (((← sextet? a).val * 64 + (← sextet? b).val) * 64 + (← sextet? c).val) * 64 +
      (← sextet? d).val
    some (byteAt n 16 :: byteAt n 8 :: byteAt n 0 :: (← decode rest))

end QueryPlans.Text.Base64
