import QueryPlans.Digest.XXH64
import QueryPlans.Shape.Digest
import QueryPlans.Shape.Lifting
import QueryPlans.Shape.Matching

/-!
# Shape/Basic — what requests have in common once their literals are lifted

A shape is a lifted request together with the hash of its digest.  Shapes are compared in three
steps: both have to be modelled throughout, their hashes have to be equal, and their requests have
to agree node for node.  The hash only makes the comparison quick; since requests that agree have
one digest, it never parts what agrees, whatever the hash function.
-/

namespace QueryPlans

/-- A function from byte strings to 64-bit hashes. -/
abbrev ByteHash := List UInt8 → UInt64

/-- A request whose literals have become parameters, with its hash. -/
structure Shape where
  request : Request
  hash : UInt64
  /-- Whether a plan of this shape may be kept for later requests. -/
  isCacheable : Bool

namespace Shape

/-- The shape of a lifted request, under a hash of byte strings. -/
def ofRequest (hash : ByteHash) (request : Request) (isCacheable : Bool) : Shape :=
  ⟨request, hash request.digest, isCacheable⟩

/-- **Equality of shapes.**  A shape that is not cacheable equals none, not even itself. -/
def agrees (a b : Shape) : Bool :=
  a.isCacheable && b.isCacheable && a.hash == b.hash && a.request.agrees b.request

end Shape

/-- A request taken apart into its shape and its literals. -/
structure Normalized where
  shape : Shape
  arguments : Arguments

namespace Request

/-- Takes a request apart, under any hash of digests. -/
def normalizeWith (hash : ByteHash) (r : Request) : Except LiftError Normalized := do
  let (lifted, found) ← r.lift.run .start
  return ⟨.ofRequest hash lifted found.modelled, found.arguments⟩

/-- **Takes a request apart into its shape and its literals.** -/
def normalize (r : Request) : Except LiftError Normalized := r.normalizeWith (XXH64.hash 0)

end Request

end QueryPlans
