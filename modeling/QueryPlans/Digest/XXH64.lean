/-!
# Digest/XXH64 — the 64-bit xxHash of a byte string

Stripes of 32 bytes feed four accumulators; what is left over is mixed in by lanes of eight, four
and one byte.  All arithmetic wraps.
-/

namespace QueryPlans.XXH64

/-- The prime that each round ends with. -/
def prime₁ : UInt64 := 0x9e3779b185ebca87
/-- The prime that lanes are multiplied with. -/
def prime₂ : UInt64 := 0xc2b2ae3d27d4eb4f
/-- The prime behind a lane of four bytes, and in the last round of the avalanche. -/
def prime₃ : UInt64 := 0x165667b19e3779f9
/-- The prime that is added behind a lane of eight bytes and behind an accumulator. -/
def prime₄ : UInt64 := 0x85ebca77c2b2ae63
/-- The prime of single bytes, and of strings too short for a stripe. -/
def prime₅ : UInt64 := 0x27d4eb2f165667c5

/-- Moves bits up; those that fall out come in again from below. -/
def rotateLeft (x : UInt64) (n : UInt64) : UInt64 := (x <<< n) ||| (x >>> (64 - n))

/-- The number that bytes write, lowest byte first. -/
def littleEndian (bytes : List UInt8) : UInt64 :=
  bytes.foldr (fun b n => (n <<< 8) ||| b.toUInt64) 0

/-- Mixes a lane into an accumulator. -/
def round (acc lane : UInt64) : UInt64 := rotateLeft (acc + lane * prime₂) 31 * prime₁

/-- The four accumulators. -/
structure Accumulators where
  a : UInt64
  b : UInt64
  c : UInt64
  d : UInt64

/-- The accumulators before the first stripe. -/
def Accumulators.start (seed : UInt64) : Accumulators :=
  ⟨seed + prime₁ + prime₂, seed + prime₂, seed, seed - prime₁⟩

/-- The lane of eight bytes at an offset. -/
def laneAt (bytes : List UInt8) (offset : Nat) : UInt64 :=
  littleEndian ((bytes.drop offset).take 8)

/-- Mixes a stripe in, a lane for each accumulator. -/
def Accumulators.stripe (s : Accumulators) (bytes : List UInt8) : Accumulators :=
  ⟨round s.a (laneAt bytes 0), round s.b (laneAt bytes 8), round s.c (laneAt bytes 16),
    round s.d (laneAt bytes 24)⟩

/-- Mixes an accumulator into the hash. -/
def merge (h acc : UInt64) : UInt64 := (h ^^^ round 0 acc) * prime₁ + prime₄

/-- The hash of all stripes. -/
def Accumulators.converge (s : Accumulators) : UInt64 :=
  let h := rotateLeft s.a 1 + rotateLeft s.b 7 + rotateLeft s.c 12 + rotateLeft s.d 18
  merge (merge (merge (merge h s.a) s.b) s.c) s.d

/-- Whole stripes, as many as the first argument says, and the bytes behind them. -/
def stripes : Nat → Accumulators → List UInt8 → Accumulators × List UInt8
  | 0, s, bytes => (s, bytes)
  | n + 1, s, bytes => stripes n (s.stripe (bytes.take 32)) (bytes.drop 32)

/-- The single bytes at the end. -/
def mixBytes (h : UInt64) (bytes : List UInt8) : UInt64 :=
  bytes.foldl (fun h b => rotateLeft (h ^^^ (b.toUInt64 * prime₅)) 11 * prime₁) h

/-- A lane of four bytes, if there is one, before the single bytes. -/
def mixHalfLane (h : UInt64) : List UInt8 → UInt64
  | a :: b :: c :: d :: rest =>
    let h := h ^^^ (littleEndian [a, b, c, d] * prime₁)
    mixBytes (rotateLeft h 23 * prime₂ + prime₃) rest
  | rest => mixBytes h rest

/-- Lanes of eight bytes before the rest. -/
def mixLanes (h : UInt64) : List UInt8 → UInt64
  | a :: b :: c :: d :: e :: f :: g :: i :: rest =>
    let h := h ^^^ round 0 (littleEndian [a, b, c, d, e, f, g, i])
    mixLanes (rotateLeft h 27 * prime₁ + prime₄) rest
  | rest => mixHalfLane h rest

/-- The last rounds, in which each bit of the input comes to bear on each bit of the hash. -/
def avalanche (h : UInt64) : UInt64 :=
  let h := (h ^^^ (h >>> 33)) * prime₂
  let h := (h ^^^ (h >>> 29)) * prime₃
  h ^^^ (h >>> 32)

/-- **The hash of a byte string under a seed.** -/
def hash (seed : UInt64) (bytes : List UInt8) : UInt64 :=
  let size := bytes.length
  let (h, rest) :=
    if 32 ≤ size then
      let (s, rest) := stripes (size / 32) (.start seed) bytes
      (s.converge, rest)
    else (seed + prime₅, bytes)
  avalanche (mixLanes (h + size.toUInt64) rest)

end QueryPlans.XXH64
