import QueryPlans.Proofs.Plan.Rebinding

/-!
# Proofs/Shape/Equality — when the shapes of requests are equal

Equality of shapes (`Shape.agrees`) is decided node by node and refuses what is not modelled, so it
is no equality of all shapes.  On the shapes that requests leave behind it is: two of them agree
when they are one and the same and it may be kept (`Shape.IsNormal.agrees_iff`), whatever the hash.
-/

namespace QueryPlans

variable {hash : ByteHash}

/-- **Shapes that agree are equal**, and their requests have the same slots. -/
theorem Request.eq_of_agrees {r r' : Request} {n n' : Normalized}
    (h : r.normalizeWith hash = .ok n) (h' : r'.normalizeWith hash = .ok n')
    (hagrees : n.shape.agrees n'.shape = true) :
    n.shape = n'.shape ∧ n.arguments.slots = n'.arguments.slots := by
  simp only [Shape.agrees, Bool.and_eq_true, beq_iff_eq] at hagrees
  obtain ⟨⟨⟨hcacheable, hcacheable'⟩, hhash⟩, hrequests⟩ := hagrees
  have herase := ((agrees_iff_of_normalizeWith h h').1 hrequests).1
  obtain ⟨hrequest, hslots⟩ := eq_of_erase_eq h h' herase
  refine ⟨?_, hslots⟩
  calc n.shape = ⟨n.shape.request, n.shape.hash, n.shape.isCacheable⟩ := rfl
    _ = ⟨n'.shape.request, n'.shape.hash, n'.shape.isCacheable⟩ := by
      rw [hrequest, hhash, hcacheable, hcacheable']

namespace Shape

/-- A shape that some request leaves behind. -/
def IsNormal (hash : ByteHash) (shape : Shape) : Prop :=
  ∃ r n, Request.normalizeWith hash r = .ok n ∧ n.shape = shape

/-- Shapes come from requests that were taken apart, and from nowhere else. -/
theorem isNormal_of_normalizeWith {r : Request} {n : Normalized}
    (h : r.normalizeWith hash = .ok n) : n.shape.IsNormal hash := ⟨r, n, h, rfl⟩

namespace IsNormal

variable {a b : Shape}

/-- A shape equals itself when it may be kept. -/
theorem agrees_self (h : a.IsNormal hash) (hcacheable : a.isCacheable = true) :
    a.agrees a = true := by
  obtain ⟨r, n, hn, rfl⟩ := h
  have hmodelled := (Request.isCacheable_of_normalizeWith hn).symm.trans hcacheable
  have hrequest := (Request.agrees_iff_of_normalizeWith hn hn).2 ⟨rfl, hmodelled⟩
  simp only [agrees, hcacheable, hrequest, BEq.rfl, Bool.and_self]

/-- **Shapes of requests agree when they are the same and may be kept.** -/
theorem agrees_iff (ha : a.IsNormal hash) (hb : b.IsNormal hash) :
    a.agrees b = true ↔ a.isCacheable = true ∧ a = b := by
  constructor
  · intro hagrees
    have hcacheable : a.isCacheable = true := by
      simp only [agrees, Bool.and_eq_true] at hagrees
      exact hagrees.1.1.1
    obtain ⟨r, n, hn, rfl⟩ := ha
    obtain ⟨r', n', hn', rfl⟩ := hb
    exact ⟨hcacheable, (Request.eq_of_agrees hn hn' hagrees).1⟩
  · rintro ⟨hcacheable, rfl⟩
    exact ha.agrees_self hcacheable

end IsNormal

end Shape

/-! ## Requests whose plans may be kept -/

namespace Request

/-- Whether a request can be taken apart and a plan of its shape may be kept. -/
def isCacheable (r : Request) : Bool :=
  match r.normalize with
  | .ok n => n.shape.isCacheable
  | .error _ => false

variable {r : Request} {n : Normalized}

/-- A request says of itself what its shape says. -/
theorem isCacheable_eq (h : r.normalize = .ok n) : r.isCacheable = n.shape.isCacheable := by
  rw [isCacheable, h]

/-- Nothing is kept for a request that is refused. -/
theorem isCacheable_eq_false {error : LiftError} (h : r.normalize = .error error) :
    r.isCacheable = false := by
  rw [isCacheable, h]

end Request

end QueryPlans
