import QueryPlans.Proofs.Shape.Equality
import QueryPlans.Proofs.Shape.Extraction

/-!
# Proofs/Shape/FixedPoints — a shape taken apart once more

What lifting leaves behind has no literals, so a shape that can be taken apart has no slots of its
own.  But it keeps the types of what was lifted, and requests that keep the same have the same slots
(`Request.eq_of_erase_eq`).  So only a request without slots has a shape that can be taken apart,
and that shape is the request itself.
-/

namespace QueryPlans

open Piece

namespace Request

variable {hash : ByteHash} {r : Request} {n : Normalized}

/-- Without literals there is nothing to lift. -/
theorem slots_eq_nil_of_isLifted (h : r.normalizeWith hash = .ok n) (hlifted : isLifted r = true) :
    n.arguments.slots = [] := by
  have hnone : Piece.literals r = [] := by
    rw [Piece.literals, List.filterMap_eq_nil_iff]
    intro leaf hleaf
    have hleaf := List.all_eq_true.1 hlifted leaf hleaf
    cases leaf with
    | literal v => cases hleaf
    | _ => rfl
  have hliterals : r.literals = [] := List.map_eq_nil_iff.1 ((map_snd_literals r).trans hnone)
  rw [(slots_of_normalizeWith h).1, hliterals]
  rfl

/-- A request without slots is its own shape. -/
theorem request_eq_of_slots_eq_nil (h : r.normalizeWith hash = .ok n)
    (hslots : n.arguments.slots = []) : n.shape.request = r := by
  have hentries : n.arguments.entries = [] := List.map_eq_nil_iff.1 hslots
  have hget : n.arguments.get? = fun _ => none := by
    funext name
    rw [Arguments.get?, hentries]
    rfl
  have hbound : Leaf.bound n.arguments.get? = id := by
    funext leaf
    rw [hget]
    cases leaf <;> rfl
  calc n.shape.request = mapLeaves id n.shape.request := (mapLeaves_id _).symm
    _ = fill n.arguments.get? n.shape.request := by rw [fill, hbound]
    _ = r := fill_of_normalizeWith h

/-- A shape that can be taken apart was left behind by a request without slots. -/
theorem slots_eq_nil_of_shape {n' : Normalized} (h : r.normalizeWith hash = .ok n)
    (h' : n.shape.request.normalizeWith hash = .ok n') : n.arguments.slots = [] := by
  -- The shape keeps what the request keeps, so both have the same slots, though it has no literals.
  have hslots := (eq_of_erase_eq h' h (erase_of_normalizeWith h)).2
  rw [← hslots]
  exact slots_eq_nil_of_isLifted h' (isLifted_of_normalizeWith h)

/-- **A shape is a fixed point or cannot be taken apart.**  It is refused just when values were
lifted from the request; otherwise it is its own shape, without slots, and equals itself just when
the request is modelled throughout. -/
theorem normalizeWith_shape (hash : ByteHash) (r : Request) (n : Normalized)
    (h : r.normalizeWith hash = .ok n) :
    ((∃ e, n.shape.request.normalizeWith hash = .error e) ↔ n.arguments.values ≠ []) ∧
      (n.arguments.values = [] → ∃ n', n.shape.request.normalizeWith hash = .ok n' ∧
        n'.shape.request = n.shape.request ∧ n'.shape.hash = n.shape.hash ∧
        n'.shape.isCacheable = n.shape.isCacheable ∧ n'.arguments.slots = [] ∧
        (n'.shape.agrees n.shape = true ↔ isModelled r = true)) := by
  have hvalues : n.arguments.values = [] ↔ n.arguments.slots = [] := by
    rw [Arguments.values, Arguments.slots, List.map_eq_nil_iff, List.map_eq_nil_iff]
  have hfixed (hslots : n.arguments.slots = []) : n.shape.request.normalizeWith hash = .ok n := by
    rw [request_eq_of_slots_eq_nil h hslots, h]
  rw [Ne, hvalues]
  refine ⟨⟨?_, fun hslots => ?_⟩, fun hslots => ⟨n, hfixed hslots, rfl, rfl, rfl, hslots, ?_⟩⟩
  · rintro ⟨e, hrefused⟩ hslots
    cases hrefused.symm.trans (hfixed hslots)
  · cases hagain : n.shape.request.normalizeWith hash with
    | error e => exact ⟨e, rfl⟩
    | ok n' => exact absurd (slots_eq_nil_of_shape h hagain) hslots
  · have hnormal := Shape.isNormal_of_normalizeWith h
    rw [hnormal.agrees_iff hnormal, isCacheable_of_normalizeWith h]
    exact and_iff_left rfl

/-- All countries in order of their names. -/
def countries : Request :=
  { Request.empty with
    path := [.entitySet "Countries"]
    orderBy := [⟨.property ⟨["Name"]⟩, .ascending⟩] }

/-- A request without literals is a fixed point; the shape of one with literals is refused. -/
theorem normalizeWith_shape_countries :
    (∃ n n', countries.normalizeWith (fun _ => 0) = .ok n ∧
      n.shape.request.normalizeWith (fun _ => 0) = .ok n' ∧ n'.shape.agrees n.shape = true) ∧
    ∃ n, customers.normalizeWith (fun _ => 0) = .ok n ∧
      ∃ e, n.shape.request.normalizeWith (fun _ => 0) = .error e := by
  constructor
  · obtain ⟨n', hn', -, -, -, -, hagrees⟩ :=
      (normalizeWith_shape (fun _ => 0) countries _ rfl).2 rfl
    exact ⟨_, n', rfl, hn', hagrees.2 rfl⟩
  · exact ⟨_, rfl, (normalizeWith_shape (fun _ => 0) customers _ rfl).1.2 (by decide)⟩

end Request

end QueryPlans
