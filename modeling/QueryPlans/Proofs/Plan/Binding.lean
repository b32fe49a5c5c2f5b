import Mathlib.Data.List.Perm.Subperm
import QueryPlans.Plan.Basic
import QueryPlans.Proofs.Arguments
import QueryPlans.Proofs.Except

/-!
# Proofs/Plan/Binding — which arguments a plan accepts

Binding looks up every declared slot and then compares two numbers; it never looks for a slot of an
argument.  Names being different on both sides, that is enough: if every slot has its argument, no
two have the same, so with as many arguments as slots none is left over (`size_eq_length_iff`).  A
plan accepts the arguments that have the names and types of its slots; others are refused for the
first slot that lacks its argument, or else for being too many (`PlanEntry.binds_iff`).
-/

namespace QueryPlans

/-! ## Slots and arguments -/

/-- The parameter that an argument is a value for. -/
def Argument.parameter (a : Argument) : Parameter := ⟨a.slot.name, a.value.type⟩

namespace Slot

/-- **A slot that has its argument**: one has its name, and a value of its type. -/
def IsMet (args : Arguments) (slot : Slot) : Prop :=
  slot.parameter ∈ args.entries.map Argument.parameter

/-- **What a slot lacks**: no argument has its name, or the one that has is of another type. -/
inductive Lacks (args : Arguments) (slot : Slot) : BindError → Prop
  | missing (h : ∀ a ∈ args.entries, a.slot.name ≠ slot.name) :
    Lacks args slot (.missing slot.name)
  | mismatch {a : Argument} (ha : a ∈ args.entries) (hname : a.slot.name = slot.name)
    (htype : a.value.type ≠ slot.type) :
    Lacks args slot (.mismatch slot.name slot.type a.value.type)

variable {args : Arguments} {slot : Slot} {e : BindError}

/-- A slot is met by a value of its name and its type. -/
theorem isMet_iff : slot.IsMet args ↔
    ∃ a ∈ args.entries, a.slot.name = slot.name ∧ a.value.type = slot.type := by
  simp [IsMet, Argument.parameter, parameter]

/-- **A slot passes its check exactly if it is met.** -/
theorem check_eq_ok_iff (h : args.IsNumbered) : slot.check args = .ok () ↔ slot.IsMet args := by
  rw [isMet_iff, check]
  cases hget : args.get? slot.name with
  | none =>
    have hnone := Arguments.get?_eq_none_iff.1 hget
    exact iff_of_false nofun fun ⟨a, ha, hname, _⟩ => hnone a ha hname
  | some v =>
    obtain ⟨a, ha, hname, rfl⟩ := Arguments.exists_of_get?_eq_some hget
    dsimp only
    split
    · next htype => exact iff_of_true rfl ⟨a, ha, hname, htype⟩
    · next htype =>
      refine iff_of_false nofun fun ⟨b, hb, hname', htype'⟩ => htype ?_
      rwa [h.eq_of_name_eq ha hb (hname.trans hname'.symm)]

/-- Else the error says what is lacking, the value or its type. -/
theorem check_eq_error_iff (h : args.IsNumbered) :
    slot.check args = .error e ↔ slot.Lacks args e := by
  rw [check]
  cases hget : args.get? slot.name with
  | none =>
    have hnone := Arguments.get?_eq_none_iff.1 hget
    constructor
    · rintro ⟨⟩
      exact .missing hnone
    · rintro (_ | ⟨ha, hname, -⟩)
      · rfl
      · exact absurd hname (hnone _ ha)
  | some v =>
    -- Names being different, the argument that was found is the only one to speak of.
    obtain ⟨a, ha, hname, rfl⟩ := Arguments.exists_of_get?_eq_some hget
    dsimp only
    split
    · next htype =>
      refine iff_of_false nofun ?_
      rintro (hnone | ⟨hb, hname', htype'⟩)
      · exact hnone a ha hname
      · exact htype' (h.eq_of_name_eq ha hb (hname.trans hname'.symm) ▸ htype)
    · next htype =>
      constructor
      · rintro ⟨⟩
        exact .mismatch ha hname htype
      · rintro (hnone | ⟨hb, hname', -⟩)
        · exact absurd hname (hnone a ha)
        · rw [h.eq_of_name_eq ha hb (hname.trans hname'.symm)]

end Slot

/-! ## Counting -/

/-- **As many arguments as slots** leave none over, where every slot has its own. -/
theorem Arguments.IsNumbered.size_eq_length_iff {args : Arguments} (h : args.IsNumbered)
    {slots : List Slot} (hnames : (slots.map Slot.name).Nodup)
    (hmet : ∀ slot ∈ slots, slot.IsMet args) :
    args.size = slots.length ↔ ∀ a ∈ args.entries, a.slot.name ∈ slots.map Slot.name := by
  have hsub : slots.map Slot.name ⊆ args.entries.map fun a => a.slot.name := by
    intro name hname
    obtain ⟨slot, hslot, rfl⟩ := List.mem_map.1 hname
    obtain ⟨a, ha, hname, -⟩ := Slot.isMet_iff.1 (hmet slot hslot)
    exact List.mem_map.2 ⟨a, ha, hname⟩
  have hsubperm := List.subperm_of_subset hnames hsub
  rw [← List.forall_mem_map (f := fun a : Argument => a.slot.name)
    (P := fun name => name ∈ slots.map Slot.name)]
  constructor
  · intro hsize
    have hperm := hsubperm.perm_of_length_le (by simpa [Arguments.size] using hsize.le)
    exact fun name hname => hperm.mem_iff.2 hname
  · intro hall
    have hperm := hsubperm.antisymm (List.subperm_of_subset h.nodup_names hall)
    simpa [Arguments.size] using hperm.length_eq.symm

/-! ## Binding -/

variable {P : Type}

/-- **A plan that takes its arguments**: each slot has a value of its type, and each argument is the
value of one slot. -/
structure BoundPlan.PairsUp (b : BoundPlan P) : Prop where
  slot : ∀ slot ∈ b.entry.slots, ∃ v, b.value? slot.name = some v ∧ v.type = slot.type
  argument : ∀ a ∈ b.arguments.entries, b.value? a.slot.name = some a.value ∧
    ∃! slot, slot ∈ b.entry.slots ∧ slot.name = a.slot.name

namespace PlanEntry

variable {entry : PlanEntry P} {args : Arguments} {e : BindError}

/-- **What arguments are refused for**: the first slot that lacks its argument, or else an argument
that is left over. -/
inductive Refuses (entry : PlanEntry P) (args : Arguments) : BindError → Prop
  | lacks {before after : List Slot} {slot : Slot} {e : BindError}
    (hslots : entry.slots = before ++ slot :: after) (hbefore : ∀ s ∈ before, s.IsMet args)
    (hlacks : slot.Lacks args e) : Refuses entry args e
  | leftOver {a : Argument} (hmet : ∀ slot ∈ entry.slots, slot.IsMet args)
    (ha : a ∈ args.entries) (hfree : a.slot.name ∉ entry.slots.map Slot.name) :
    Refuses entry args (.countMismatch args.size entry.slots.length)

/-- Slots that have their arguments leave the numbers to be compared. -/
theorem bind_of_isMet (h : args.IsNumbered) (hmet : ∀ slot ∈ entry.slots, slot.IsMet args) :
    entry.bind args =
      if args.size = entry.slots.length then .ok ⟨entry, args⟩
      else .error (.countMismatch args.size entry.slots.length) := by
  have hchecks : entry.slots.forM (Slot.check args) = .ok () :=
    forM_eq_ok_iff.2 fun slot hslot => (Slot.check_eq_ok_iff h).2 (hmet slot hslot)
  rw [bind, hchecks]
  rfl

/-- **Values are refused for the number of them, or for the first slot that is not met.** -/
theorem bind_eq_error_iff (h : args.IsNumbered) (hnames : (entry.slots.map Slot.name).Nodup) :
    entry.bind args = .error e ↔ entry.Refuses args e := by
  constructor
  · intro hbind
    cases hchecks : entry.slots.forM (Slot.check args) with
    | error e' =>
      rw [bind, hchecks] at hbind
      cases hbind
      obtain ⟨before, slot, after, hslots, hbefore, hslot⟩ := forM_eq_error_iff.1 hchecks
      exact .lacks hslots (fun s hs => (Slot.check_eq_ok_iff h).1 (hbefore s hs))
        ((Slot.check_eq_error_iff h).1 hslot)
    | ok _ =>
      -- All slots are met, so it can only be the number of values that is wrong: one is left over.
      have hmet : ∀ slot ∈ entry.slots, slot.IsMet args := fun slot hslot =>
        (Slot.check_eq_ok_iff h).1 (forM_eq_ok_iff.1 hchecks slot hslot)
      rw [bind_of_isMet h hmet] at hbind
      split at hbind
      · cases hbind
      · next hsize =>
        cases hbind
        rw [h.size_eq_length_iff hnames hmet] at hsize
        obtain ⟨a, ha, hfree⟩ := not_forall₂.1 hsize
        exact .leftOver hmet ha hfree
  · rintro (⟨hslots, hbefore, hlacks⟩ | ⟨hmet, ha, hfree⟩)
    · have hchecks : entry.slots.forM (Slot.check args) = .error e :=
        forM_eq_error_iff.2 ⟨_, _, _, hslots,
          fun s hs => (Slot.check_eq_ok_iff h).2 (hbefore s hs),
          (Slot.check_eq_error_iff h).2 hlacks⟩
      rw [bind, hchecks, error_bind]
    · rw [bind_of_isMet h hmet, if_neg]
      exact fun hsize => hfree ((h.size_eq_length_iff hnames hmet).1 hsize _ ha)

/-- Slots and arguments are the same parameters if every slot has its argument and none is left. -/
theorem parameters_iff (h : args.IsNumbered) :
    (∀ p, p ∈ entry.slots.map Slot.parameter ↔ p ∈ args.entries.map Argument.parameter) ↔
      (∀ slot ∈ entry.slots, slot.IsMet args) ∧
        ∀ a ∈ args.entries, a.slot.name ∈ entry.slots.map Slot.name := by
  constructor
  · intro hsame
    refine ⟨fun slot hslot => (hsame _).1 (List.mem_map_of_mem hslot), fun a ha => ?_⟩
    obtain ⟨slot, hslot, hparameter⟩ := List.mem_map.1 ((hsame _).2 (List.mem_map_of_mem ha))
    exact List.mem_map.2 ⟨slot, hslot, congrArg Parameter.name hparameter⟩
  · rintro ⟨hmet, hall⟩ p
    refine ⟨fun hp => ?_, fun hp => ?_⟩
    · obtain ⟨slot, hslot, rfl⟩ := List.mem_map.1 hp
      exact hmet slot hslot
    · obtain ⟨a, ha, rfl⟩ := List.mem_map.1 hp
      obtain ⟨slot, hslot, hname⟩ := List.mem_map.1 (hall a ha)
      -- The argument that the slot has is the only one of its name.
      obtain ⟨b, hb, hname', htype⟩ := Slot.isMet_iff.1 (hmet slot hslot)
      obtain rfl := h.eq_of_name_eq hb ha (hname'.trans hname)
      refine List.mem_map.2 ⟨slot, hslot, ?_⟩
      rw [Slot.parameter, Argument.parameter, hname, htype]

/-- **Values are accepted exactly if the slots ask for them all**, by name and type. -/
theorem bind_eq_ok_iff (h : args.IsNumbered) (hnames : (entry.slots.map Slot.name).Nodup)
    {bound : BoundPlan P} : entry.bind args = .ok bound ↔
      bound = ⟨entry, args⟩ ∧
        ∀ p, p ∈ entry.slots.map Slot.parameter ↔ p ∈ args.entries.map Argument.parameter := by
  rw [parameters_iff h]
  constructor
  · intro hbind
    have hmet : ∀ slot ∈ entry.slots, slot.IsMet args := by
      rw [bind] at hbind
      obtain ⟨⟨⟩, hchecks, -⟩ := QueryPlans.bind_eq_ok_iff.1 hbind
      exact fun slot hslot => (Slot.check_eq_ok_iff h).1 (forM_eq_ok_iff.1 hchecks slot hslot)
    rw [bind_of_isMet h hmet] at hbind
    split at hbind
    · next hsize =>
      cases hbind
      exact ⟨rfl, hmet, (h.size_eq_length_iff hnames hmet).1 hsize⟩
    · cases hbind
  · rintro ⟨rfl, hmet, hall⟩
    rw [bind_of_isMet h hmet, if_pos ((h.size_eq_length_iff hnames hmet).2 hall)]

/-- Arguments that are the parameters of the slots are paired up with them. -/
theorem pairsUp (h : args.IsNumbered) (hnames : (entry.slots.map Slot.name).Nodup)
    (hsame : ∀ p, p ∈ entry.slots.map Slot.parameter ↔ p ∈ args.entries.map Argument.parameter) :
    BoundPlan.PairsUp ⟨entry, args⟩ := by
  obtain ⟨hmet, hall⟩ := (parameters_iff h).1 hsame
  refine ⟨fun slot hslot => ?_, fun a ha => ⟨h.get?_name ha, ?_⟩⟩
  · obtain ⟨a, ha, hname, htype⟩ := Slot.isMet_iff.1 (hmet slot hslot)
    exact ⟨a.value, hname ▸ h.get?_name ha, htype⟩
  · obtain ⟨slot, hslot, hname⟩ := List.mem_map.1 (hall a ha)
    refine ⟨slot, ⟨hslot, hname⟩, fun other hother => ?_⟩
    exact List.inj_on_of_nodup_map hnames hother.1 hslot (hother.2.trans hname.symm)

/-- **A plan accepts the arguments that its slots declare**, and no others.  Slots of different
names are bound by arguments that were pushed one after the other exactly if both have the same
names and types; then each slot has its value, and each argument its slot.  All others are refused
for the first slot that lacks its argument, or, when none does, for what is left over. -/
theorem binds_iff (entry : PlanEntry P) (hnames : (entry.slots.map Slot.name).Nodup)
    (literals : List (SlotOrigin × Scalar)) :
    let args := Arguments.empty.pushAll literals
    ((∃ bound, entry.bind args = .ok bound) ↔
      ∀ p, p ∈ entry.slots.map Slot.parameter ↔ p ∈ args.entries.map Argument.parameter) ∧
    (∀ bound, entry.bind args = .ok bound → bound = ⟨entry, args⟩ ∧ bound.PairsUp) ∧
    ∀ e, entry.bind args = .error e ↔ entry.Refuses args e := by
  intro args
  have h : args.IsNumbered := Arguments.isNumbered_empty.pushAll literals
  refine ⟨⟨fun ⟨bound, hbind⟩ => ?_, fun hsame => ?_⟩, fun bound hbind => ?_, fun e => ?_⟩
  · exact ((bind_eq_ok_iff h hnames).1 hbind).2
  · exact ⟨_, (bind_eq_ok_iff h hnames).2 ⟨rfl, hsame⟩⟩
  · obtain ⟨rfl, hsame⟩ := (bind_eq_ok_iff h hnames).1 hbind
    exact ⟨rfl, pairsUp h hnames hsame⟩
  · exact bind_eq_error_iff h hnames

/-! ## People of an age and a name -/

/-- A plan that declares the slot of the name before that of the age. -/
def byNameAndAge : PlanEntry Unit where
  serial := 0
  compiled := ⟨(), none, ⟨.mk ⟨0, .root, [⟨"Id", 0⟩], [0], [0], [0], none, 0⟩ [], [], 1⟩⟩
  slots := [⟨"__p1", .string, .filter []⟩, ⟨"__p0", .int, .filter []⟩]
  shapeHash := 0

/-- An age and a name are accepted, in the order in which they were pushed; an age alone leaves the
first slot without a value, two ages give it one of another type, and one value more is left
over. -/
theorem binds_iff_byNameAndAge :
    let age : SlotOrigin × Scalar := (.filter [], .int 30)
    let name : SlotOrigin × Scalar := (.filter [], .string "Ann")
    (byNameAndAge.slots.map Slot.name).Nodup ∧
      (∃ bound, byNameAndAge.bind (Arguments.empty.pushAll [age, name]) = .ok bound) ∧
      byNameAndAge.bind (Arguments.empty.pushAll [age]) = .error (.missing "__p1") ∧
      byNameAndAge.bind (Arguments.empty.pushAll [age, age]) =
        .error (.mismatch "__p1" .string .int) ∧
      byNameAndAge.bind (Arguments.empty.pushAll [age, name, age]) =
        .error (.countMismatch 3 2) := by
  intro age name
  have hnames : (byNameAndAge.slots.map Slot.name).Nodup := by decide
  have hbinds := binds_iff byNameAndAge hnames
  have hparameters : (Arguments.empty.pushAll [age, name]).entries.map Argument.parameter =
      [⟨"__p0", .int⟩, ⟨"__p1", .string⟩] := by decide
  have hmet : ∀ slot ∈ byNameAndAge.slots, slot.IsMet (.pushAll .empty [age, name, age]) := by
    simp only [Slot.IsMet]
    decide
  have hlacks {literals : List (SlotOrigin × Scalar)} {e : BindError}
      (h : Slot.Lacks (.pushAll .empty literals) ⟨"__p1", .string, .filter []⟩ e) :
      byNameAndAge.bind (.pushAll .empty literals) = .error e :=
    ((hbinds literals).2.2 e).2 (.lacks rfl (List.forall_mem_nil _) h)
  refine ⟨hnames, (hbinds [age, name]).1.2 fun p => hparameters ▸ (List.Perm.swap _ _ _).mem_iff,
    hlacks (.missing ?_), hlacks (.mismatch (List.mem_cons_of_mem _ List.mem_cons_self) ?_ ?_),
    ((hbinds [age, name, age]).2.2 _).2 (.leftOver hmet
      (List.mem_cons_of_mem _ (List.mem_cons_of_mem _ List.mem_cons_self)) ?_)⟩
  · decide
  · decide
  · decide
  · decide

end PlanEntry

end QueryPlans
