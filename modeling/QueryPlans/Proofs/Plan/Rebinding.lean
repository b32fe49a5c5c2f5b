import QueryPlans.Plan.Basic
import QueryPlans.Proofs.Except
import QueryPlans.Proofs.Shape.Agreement

/-!
# Proofs/Plan/Rebinding — a plan serves every request of its shape

Shapes are compared without the names of slots, yet plans find values by these names.  That is
sound because lifting never looks at a value: run on zeros in the place of values it does the same
(`Lifted.zeroed`), and requests of one shape are equal once their values are zeros.  So equal shapes
come with equal lifted requests and slots, and a plan made for one request binds the arguments of
the other, each value to the place it was lifted from (`rebind_eq`).
-/

namespace QueryPlans

open Piece

/-! ## Binding -/

/-- Numbered arguments bind to the plans that declare their slots. -/
theorem Arguments.IsNumbered.bind_eq_ok {P : Type} {args : Arguments} (h : args.IsNumbered)
    {entry : PlanEntry P} (hslots : entry.slots = args.slots) :
    entry.bind args = .ok ⟨entry, args⟩ := by
  have hchecks : entry.slots.forM (Slot.check args) = .ok () := by
    refine forM_eq_ok_iff.2 fun slot hslot => ?_
    rw [hslots] at hslot
    obtain ⟨a, ha, rfl⟩ := List.mem_map.1 hslot
    simp only [Slot.check, h.get?_name ha, if_pos (h.types a ha).symm]
  have hsize : args.size = entry.slots.length := by
    rw [hslots, Arguments.slots, List.length_map, Arguments.size]
  rw [PlanEntry.bind, hchecks]
  exact if_pos hsize

/-! ## Requests of one shape -/

namespace Request

variable {hash : ByteHash} {r r' : Request} {n n' : Normalized}

/-- **Requests that keep the same leave the same behind**, down to the names of slots. -/
theorem eq_of_erase_eq (h : r.normalizeWith hash = .ok n) (h' : r'.normalizeWith hash = .ok n')
    (herase : erase r = erase r') :
    n.shape.request = n'.shape.request ∧ n.arguments.slots = n'.arguments.slots := by
  obtain ⟨s, hs, hargs, -⟩ := lifted_of_normalizeWith h
  obtain ⟨s', hs', hargs', -⟩ := lifted_of_normalizeWith h'
  have hrun := hs.zeroed
  rw [zeroed_eq_of_erase_eq herase, hs'.zeroed] at hrun
  obtain ⟨hrequest, hzeroed⟩ := Prod.mk.inj (Except.ok.inj hrun)
  have hargs_zeroed : s'.arguments.zeroed = s.arguments.zeroed := congrArg Lifting.arguments hzeroed
  refine ⟨hrequest.symm, ?_⟩
  rw [hargs, hargs', ← Arguments.slots_zeroed, ← hargs_zeroed, Arguments.slots_zeroed]

/-- A request is what is left of it with its own arguments filled in. -/
theorem fill_of_normalizeWith (h : r.normalizeWith hash = .ok n) :
    fill n.arguments.get? n.shape.request = r := by
  have hnumbered := isNumbered_of_normalizeWith h
  obtain ⟨s, hs, hargs, -⟩ := lifted_of_normalizeWith h
  rw [hargs] at hnumbered ⊢
  have hundoes : Undoes s.arguments (Leaf.bound s.arguments.get?) id := by
    refine ⟨fun a ha => ?_, fun _ => rfl⟩
    simp only [Leaf.bound, Slot.parameter, hnumbered.get?_name ha, id]
  exact (hs.mapLeaves_eq _ id hundoes).trans (mapLeaves_id r)

end Request

/-- **A plan serves every request of its shape**: of two requests with equal shapes the lifted
requests and the slots are one and the same, a plan that declares the slots of the first binds the
arguments of the second, and what was lifted from the first becomes the second once every parameter
is replaced by the value bound to its name. -/
theorem rebind_eq {P : Type} (hash : ByteHash) (r r' : Request) (n n' : Normalized)
    (h : r.normalizeWith hash = .ok n) (h' : r'.normalizeWith hash = .ok n')
    (hagrees : n.shape.agrees n'.shape = true) :
    n.shape.request = n'.shape.request ∧ n.arguments.slots = n'.arguments.slots ∧
      ∀ entry : PlanEntry P, entry.slots = n.arguments.slots →
        ∃ bound, entry.bind n'.arguments = .ok bound ∧ fill bound.value? n.shape.request = r' := by
  have hrequests : n.shape.request.agrees n'.shape.request = true := by
    rw [Shape.agrees, Bool.and_eq_true] at hagrees
    exact hagrees.2
  have herase := ((Request.agrees_iff_of_normalizeWith h h').1 hrequests).1
  obtain ⟨hrequest, hslots⟩ := Request.eq_of_erase_eq h h' herase
  refine ⟨hrequest, hslots, fun entry hentry => ⟨⟨entry, n'.arguments⟩, ?_, ?_⟩⟩
  · exact (Request.isNumbered_of_normalizeWith h').bind_eq_ok (hentry.trans hslots)
  · rw [hrequest]
    exact Request.fill_of_normalizeWith h'

/-- The plan for ages above 18, bound to 65. -/
theorem rebind_eq_above :
    ∃ n n', (Request.above 18).normalizeWith (fun _ => 0) = .ok n ∧
      (Request.above 65).normalizeWith (fun _ => 0) = .ok n' ∧
      n.arguments.slots = [⟨"__p0", .int, .filter []⟩] ∧
      n.arguments.slots = n'.arguments.slots ∧
      ∀ entry : PlanEntry Unit, entry.slots = n.arguments.slots →
        ∃ bound, entry.bind n'.arguments = .ok bound ∧
          fill bound.value? n.shape.request = .above 65 := by
  refine ⟨_, _, rfl, rfl, rfl, ?_⟩
  exact (rebind_eq (fun _ => 0) (.above 18) (.above 65) _ _ rfl rfl rfl).2

end QueryPlans
