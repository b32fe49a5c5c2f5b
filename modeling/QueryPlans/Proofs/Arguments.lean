import Mathlib.Data.List.Nodup
import Mathlib.Data.List.Range
import QueryPlans.Arguments

/-!
# Proofs/Arguments — what a run of pushes leaves behind

Arguments that were pushed one after the other are numbered: their names count up from zero, and
every slot has the type of its value (`IsNumbered`).  Names being different, each finds its own
value (`get?_name`).
-/

namespace QueryPlans

namespace Arguments

/-- Pushes literals in order, each with its origin. -/
def pushAll (args : Arguments) (literals : List (SlotOrigin × Scalar)) : Arguments :=
  literals.foldl (fun args literal => args.push literal.1 literal.2) args

theorem pushAll_append (args : Arguments) (l l' : List (SlotOrigin × Scalar)) :
    args.pushAll (l ++ l') = (args.pushAll l).pushAll l' := List.foldl_append

/-- Parameters are only added. -/
theorem entries_prefix_pushAll (args : Arguments) (l : List (SlotOrigin × Scalar)) :
    args.entries <+: (args.pushAll l).entries := by
  induction l generalizing args with
  | nil => exact List.prefix_rfl
  | cons literal rest ih =>
    exact (List.prefix_append _ _).trans (ih (args.push literal.1 literal.2))

/-- The literals that were pushed are there in order, each with its origin. -/
theorem map_entries_pushAll (args : Arguments) (l : List (SlotOrigin × Scalar)) :
    (args.pushAll l).entries.map (fun a => (a.slot.origin, a.value)) =
      args.entries.map (fun a => (a.slot.origin, a.value)) ++ l := by
  induction l generalizing args with
  | nil => exact (List.append_nil _).symm
  | cons literal rest ih =>
    refine (ih (args.push literal.1 literal.2)).trans ?_
    simp [push, nextSlot]

/-! ## Names -/

/-- A number is read off the name that it gives. -/
theorem slotName_injective : Function.Injective slotName := by
  intro i j h
  have hdigits : Nat.toDigits 10 i = Nat.toDigits 10 j :=
    String.ofList_injective (String.append_right_inj _ |>.1 h)
  rw [← Nat.ofDigitChars_ten_toDigits (n := i), hdigits, Nat.ofDigitChars_ten_toDigits]

/-- **What pushes leave behind**, slot by slot. -/
theorem slots_pushAll_empty (l : List (SlotOrigin × Scalar)) :
    (empty.pushAll l).slots =
      l.zipIdx.map fun (literal, i) => ⟨slotName i, literal.2.type, literal.1⟩ := by
  induction l using List.reverseRecOn with
  | nil => rfl
  | append_singleton l literal ih =>
    have hsize : (empty.pushAll l).size = l.length := by
      simpa [slots, size] using congrArg List.length ih
    rw [pushAll_append, List.zipIdx_append, List.map_append, ← ih]
    change ((empty.pushAll l).push literal.1 literal.2).slots = _
    rw [slots_push, nextSlot, hsize]
    simp

/-- The values are those that were pushed, in order. -/
theorem values_pushAll_empty (l : List (SlotOrigin × Scalar)) :
    (empty.pushAll l).values = l.map Prod.snd := by
  have hentries := congrArg (List.map Prod.snd) (map_entries_pushAll .empty l)
  rwa [List.map_map] at hentries

/-- **Arguments as pushes leave them.** -/
structure IsNumbered (args : Arguments) : Prop where
  names : args.entries.map (fun a => a.slot.name) = (List.range args.size).map slotName
  types : ∀ a ∈ args.entries, a.slot.type = a.value.type

theorem isNumbered_empty : empty.IsNumbered := ⟨rfl, by simp [empty]⟩

/-- The next parameter has the next number. -/
theorem IsNumbered.push {args : Arguments} (h : args.IsNumbered) (origin : SlotOrigin)
    (value : Scalar) : (args.push origin value).IsNumbered where
  names := by
    rw [size_push, List.range_succ, List.map_append, ← h.names]
    simp [Arguments.push, nextSlot]
  types a ha := by
    rcases List.mem_append.1 ha with ha | ha
    · exact h.types a ha
    · rw [List.mem_singleton.1 ha]
      rfl

theorem IsNumbered.pushAll {args : Arguments} (h : args.IsNumbered)
    (l : List (SlotOrigin × Scalar)) : (args.pushAll l).IsNumbered := by
  induction l generalizing args with
  | nil => exact h
  | cons literal rest ih => exact ih (h.push literal.1 literal.2)

/-- **Numbered parameters have names apart.** -/
theorem IsNumbered.nodup_names {args : Arguments} (h : args.IsNumbered) :
    (args.entries.map fun a => a.slot.name).Nodup := by
  rw [h.names]
  exact List.nodup_range.map slotName_injective

/-- Among entries of different names each is the first of its name. -/
theorem find?_name {entries : List Argument} (h : (entries.map fun a => a.slot.name).Nodup)
    {a : Argument} (ha : a ∈ entries) :
    (entries.find? fun b => b.slot.name == a.slot.name) = some a := by
  induction entries with
  | nil => cases ha
  | cons b rest ih =>
    rw [List.map_cons, List.nodup_cons] at h
    rcases List.mem_cons.1 ha with rfl | hrest
    · simp
    · have hne : b.slot.name ≠ a.slot.name := fun he =>
        h.1 (he ▸ List.mem_map_of_mem (f := fun a : Argument => a.slot.name) hrest)
      rw [List.find?_cons_of_neg (by simpa using hne), ih h.2 hrest]

/-- **A name finds its own value.** -/
theorem IsNumbered.get?_name {args : Arguments} (h : args.IsNumbered) {a : Argument}
    (ha : a ∈ args.entries) : args.get? a.slot.name = some a.value := by
  rw [get?, find?_name h.nodup_names ha, Option.map_some]

/-- So a name belongs to one parameter. -/
theorem IsNumbered.eq_of_name_eq {args : Arguments} (h : args.IsNumbered) {a b : Argument}
    (ha : a ∈ args.entries) (hb : b ∈ args.entries) (hname : a.slot.name = b.slot.name) : a = b :=
  List.inj_on_of_nodup_map h.nodup_names ha hb hname

theorem get?_eq_none_iff {args : Arguments} {name : String} :
    args.get? name = none ↔ ∀ a ∈ args.entries, a.slot.name ≠ name := by
  simp [get?]

/-- A name that finds a value is that of an argument. -/
theorem exists_of_get?_eq_some {args : Arguments} {name : String} {v : Scalar}
    (h : args.get? name = some v) : ∃ a ∈ args.entries, a.slot.name = name ∧ a.value = v := by
  obtain ⟨a, hfind, rfl⟩ := Option.map_eq_some_iff.1 h
  exact ⟨a, List.mem_of_find?_eq_some hfind, by simpa using List.find?_some hfind, rfl⟩

end Arguments

end QueryPlans
