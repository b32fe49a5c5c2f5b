import QueryPlans.Proofs.Arguments

/-!
# Proofs/Arguments/Table — arguments in lists that are read by position

A table keeps slots and values in two lists and finds values by two indexes: one has the position of
each name, the other that of each origin by which arguments are looked up.  A position that is out
of range is a fault.  Both indexes are of one kind: they have the last position of each key
(`IsIndexOf`), and a push keeps that, whether its key is new, takes over from where it stood before
(`IsIndexOf.insert`) or is none (`IsIndexOf.pass`).  So the indexes agree with the lists after every
run of pushes (`ArgumentTable.IsIndexed.pushAll`).  Names are numbered, and the last slot of a name
is its only one: what takes over an origin leaves what is found by name as it was.  No look-up runs
into a fault, and each finds what it finds among arguments (`ArgumentTable.indexes_agree`).
-/

namespace QueryPlans

/-! ## Last positions -/

section

variable {κ : Type} {keys : List κ} {key other : κ} {i : Nat}

/-- A position with a key that no position behind it has. -/
def IsLastAt (keys : List κ) (key : κ) (i : Nat) : Prop :=
  keys[i]? = some key ∧ ∀ j, i < j → keys[j]? ≠ some key

theorem IsLastAt.lt_length (h : IsLastAt keys key i) : i < keys.length :=
  (List.getElem?_eq_some_iff.1 h.1).1

/-- A key that comes last is there for the last time. -/
theorem isLastAt_concat_self : IsLastAt (keys ++ [key]) key i ↔ i = keys.length := by
  constructor
  · intro h
    have hlt : i < keys.length + 1 := by simpa using h.lt_length
    by_contra hne
    exact h.2 keys.length (by omega) List.getElem?_concat_length
  · rintro rfl
    refine ⟨List.getElem?_concat_length, fun j hj => ?_⟩
    rw [List.getElem?_eq_none (by simpa using Nat.succ_le_of_lt hj)]
    simp

/-- Another key leaves the last place of a key. -/
theorem isLastAt_concat_of_ne (h : other ≠ key) :
    IsLastAt (keys ++ [other]) key i ↔ IsLastAt keys key i := by
  have hkey (j : Nat) : (keys ++ [other])[j]? = some key ↔ keys[j]? = some key := by
    rw [List.getElem?_append]
    split
    · rfl
    · next hlt =>
      rw [List.getElem?_eq_none (Nat.le_of_not_lt hlt), List.getElem?_singleton]
      split <;> simp [h]
  simp only [IsLastAt, hkey, ne_eq]

/-- A key that occurs has a last place. -/
theorem exists_isLastAt (h : key ∈ keys) : ∃ i, IsLastAt keys key i := by
  induction keys using List.reverseRecOn with
  | nil => cases h
  | append_singleton keys other ih =>
    by_cases hother : other = key
    · exact ⟨keys.length, hother ▸ isLastAt_concat_self.2 rfl⟩
    · have hmem : key ∈ keys := by simpa [Ne.symm hother] using h
      obtain ⟨i, hi⟩ := ih hmem
      exact ⟨i, (isLastAt_concat_of_ne hother).2 hi⟩

/-- What is found from the end on stands at the last position. -/
theorem IsLastAt.find?_reverse {α : Type} [DecidableEq κ] {f : α → κ} {as : List α}
    (h : IsLastAt (as.map f) key i) : (as.reverse.find? fun a => f a == key) = as[i]? := by
  induction as using List.reverseRecOn with
  | nil => simp [IsLastAt] at h
  | append_singleton as a ih =>
    rw [List.map_append, List.map_singleton] at h
    rw [List.reverse_append, List.reverse_singleton, List.singleton_append]
    by_cases ha : f a = key
    · subst ha
      obtain rfl : i = as.length := by simpa using isLastAt_concat_self.1 h
      rw [List.find?_cons_of_pos (by simp), List.getElem?_concat_length]
    · have hlast := (isLastAt_concat_of_ne ha).1 h
      have hi : i < as.length := by simpa using hlast.lt_length
      rw [List.find?_cons_of_neg (by simpa using ha), ih hlast, List.getElem?_append_left hi]

/-- A key that stands nowhere else is last where it stands. -/
theorem isLastAt_of_nodup (h : keys.Nodup) (hkey : keys[i]? = some key) : IsLastAt keys key i := by
  refine ⟨hkey, fun j hj hother => ?_⟩
  have hlt := (List.getElem?_eq_some_iff.1 hkey).1
  exact absurd ((List.getElem?_inj hlt h).1 (hkey.trans hother.symm)) hj.ne

end

/-! ## Indexes -/

section

variable {κ : Type} [BEq κ] [Hashable κ] {index : Std.HashMap κ Nat} {keys : List (Option κ)}

/-- **An index of a list**, which has a key or none at each position: it has the last position of
each key. -/
def IsIndexOf (index : Std.HashMap κ Nat) (keys : List (Option κ)) : Prop :=
  ∀ key i, index[key]? = some i ↔ IsLastAt keys (some key) i

/-- A position without a key is not in the index. -/
theorem IsIndexOf.pass (h : IsIndexOf index keys) : IsIndexOf index (keys ++ [none]) := by
  intro key i
  rw [h key i, isLastAt_concat_of_ne (by simp)]

variable [LawfulBEq κ] [LawfulHashable κ]

theorem isIndexOf_empty : IsIndexOf (∅ : Std.HashMap κ Nat) [] := by
  intro key i
  simp [IsLastAt]

/-- A key that is added takes over from where it stood before. -/
theorem IsIndexOf.insert (h : IsIndexOf index keys) (key : κ) :
    IsIndexOf (index.insert key keys.length) (keys ++ [some key]) := by
  intro other i
  rw [Std.HashMap.getElem?_insert]
  by_cases hkey : key = other
  · subst hkey
    simp [isLastAt_concat_self, eq_comm]
  · rw [if_neg (by simpa using hkey), h other i,
      isLastAt_concat_of_ne (fun he => hkey (Option.some.inj he))]

end

/-! ## Tables -/

deriving instance Hashable for SlotOrigin

/-- The origin by which the argument of a slot is looked up. -/
def Slot.key? (slot : Slot) : Option SlotOrigin :=
  if slot.origin.isKeyed then some slot.origin else none

theorem Slot.key?_eq_some_iff {slot : Slot} {origin : SlotOrigin} :
    slot.key? = some origin ↔ slot.origin = origin ∧ origin.isKeyed = true := by
  rw [key?]
  split <;> grind

/-- Arguments as a list of slots and a list of values, with an index by name and one by origin. -/
structure ArgumentTable where
  slots : List Slot
  values : List Scalar
  byName : Std.HashMap String Nat
  byKey : Std.HashMap SlotOrigin Nat

namespace ArgumentTable

/-- What keeps a table from giving a value. -/
inductive Fault where
  /-- An index has a position that is out of range. -/
  | outOfRange (position : Nat)

/-- The table of no parameters. -/
def empty : ArgumentTable := ⟨[], [], ∅, ∅⟩

/-- Appends a literal, and gives the parameter that stands for it from then on. -/
def push (t : ArgumentTable) (origin : SlotOrigin) (value : Scalar) : Parameter × ArgumentTable :=
  let position := t.slots.length
  let name := Arguments.slotName position
  (⟨name, value.type⟩,
    { slots := t.slots ++ [⟨name, value.type, origin⟩]
      values := t.values ++ [value]
      byName := t.byName.insert name position
      byKey := if origin.isKeyed then t.byKey.insert origin position else t.byKey })

/-- Pushes literals in order, each with its origin. -/
def pushAll (t : ArgumentTable) (literals : List (SlotOrigin × Scalar)) : ArgumentTable :=
  literals.foldl (fun t literal => (t.push literal.1 literal.2).2) t

theorem pushAll_append (t : ArgumentTable) (l l' : List (SlotOrigin × Scalar)) :
    t.pushAll (l ++ l') = (t.pushAll l).pushAll l' := List.foldl_append

/-- The value that an index has the position of. -/
def lookUp {κ : Type} [BEq κ] [Hashable κ] (index : Std.HashMap κ Nat) (values : List Scalar)
    (key : κ) : Except Fault (Option Scalar) :=
  match index[key]? with
  | none => .ok none
  | some position =>
    match values[position]? with
    | none => .error (.outOfRange position)
    | some v => .ok (some v)

/-- The value that a name has by the index of names. -/
def get? (t : ArgumentTable) (name : String) : Except Fault (Option Scalar) :=
  lookUp t.byName t.values name

/-- The value that a place has by the index of places. -/
def byOrigin? (t : ArgumentTable) (origin : SlotOrigin) : Except Fault (Option Scalar) :=
  lookUp t.byKey t.values origin

/-! ## What a push keeps -/

/-- **A table whose indexes agree with its lists.** -/
structure IsIndexed (t : ArgumentTable) : Prop where
  length_eq : t.slots.length = t.values.length
  byName : IsIndexOf t.byName (t.slots.map fun slot => some slot.name)
  byKey : IsIndexOf t.byKey (t.slots.map Slot.key?)

theorem isIndexed_empty : empty.IsIndexed := ⟨rfl, isIndexOf_empty, isIndexOf_empty⟩

/-- **One more parameter**: both indexes are set to its number. -/
theorem IsIndexed.push {t : ArgumentTable} (h : t.IsIndexed) (origin : SlotOrigin)
    (value : Scalar) : (t.push origin value).2.IsIndexed where
  length_eq := by simp [ArgumentTable.push, h.length_eq]
  byName := by
    have hname := h.byName.insert (Arguments.slotName t.slots.length)
    rw [List.length_map] at hname
    simpa [ArgumentTable.push] using hname
  byKey := by
    have hkey := h.byKey.insert origin
    rw [List.length_map] at hkey
    by_cases horigin : origin.isKeyed = true
    · simpa [ArgumentTable.push, Slot.key?, horigin] using hkey
    · simpa [ArgumentTable.push, Slot.key?, horigin] using h.byKey.pass

theorem IsIndexed.pushAll {t : ArgumentTable} (h : t.IsIndexed)
    (literals : List (SlotOrigin × Scalar)) : (t.pushAll literals).IsIndexed := by
  induction literals generalizing t with
  | nil => exact h
  | cons literal rest ih => exact ih (h.push literal.1 literal.2)

/-- **A table of arguments**: it has their slots and values. -/
structure IsTableOf (t : ArgumentTable) (args : Arguments) : Prop where
  slots : t.slots = args.slots
  values : t.values = args.values

theorem isTableOf_empty : empty.IsTableOf .empty := ⟨rfl, rfl⟩

section

variable {t : ArgumentTable} {args : Arguments}

theorem IsTableOf.length_eq (h : t.IsTableOf args) : t.slots.length = args.size := by
  simp [h.slots, Arguments.slots, Arguments.size]

theorem IsTableOf.getElem?_slots (h : t.IsTableOf args) {i : Nat} {a : Argument}
    (ha : args.entries[i]? = some a) : t.slots[i]? = some a.slot := by
  rw [h.slots, Arguments.slots, List.getElem?_map, ha, Option.map_some]

theorem IsTableOf.getElem?_values (h : t.IsTableOf args) {i : Nat} {a : Argument}
    (ha : args.entries[i]? = some a) : t.values[i]? = some a.value := by
  rw [h.values, Arguments.values, List.getElem?_map, ha, Option.map_some]

theorem IsTableOf.nodup_names (h : t.IsTableOf args) (hargs : args.IsNumbered) :
    (t.slots.map Slot.name).Nodup := by
  have hnames := hargs.nodup_names
  rwa [h.slots, Arguments.slots, List.map_map]

/-- The parameter that a push gives is that of the slot which the argument takes. -/
theorem IsTableOf.fst_push (h : t.IsTableOf args) (origin : SlotOrigin) (value : Scalar) :
    (t.push origin value).1 = (args.nextSlot origin value).parameter := by
  rw [ArgumentTable.push, h.length_eq]
  rfl

/-- **One more parameter** is the same in the table and in the list. -/
theorem IsTableOf.push (h : t.IsTableOf args) (origin : SlotOrigin) (value : Scalar) :
    (t.push origin value).2.IsTableOf (args.push origin value) where
  slots := by
    rw [Arguments.slots_push, ← h.slots, Arguments.nextSlot, ← h.length_eq]
    rfl
  values := by
    rw [Arguments.values_push, ← h.values]
    rfl

theorem IsTableOf.pushAll (h : t.IsTableOf args) (literals : List (SlotOrigin × Scalar)) :
    (t.pushAll literals).IsTableOf (args.pushAll literals) := by
  induction literals generalizing t args with
  | nil => exact h
  | cons literal rest ih => exact ih (h.push literal.1 literal.2)

end

/-! ## Look-ups -/

section

variable {κ : Type} [BEq κ] [Hashable κ] {index : Std.HashMap κ Nat} {keys : List (Option κ)}
  {values : List Scalar} {key : κ}

/-- A look-up finds the value at the last position of its key. -/
theorem lookUp_of_isLastAt (h : IsIndexOf index keys) (hlength : keys.length = values.length)
    {i : Nat} (hlast : IsLastAt keys (some key) i) :
    lookUp index values key = .ok values[i]? := by
  have hi : i < values.length := hlength ▸ hlast.lt_length
  simp only [lookUp, (h key i).2 hlast, List.getElem?_eq_getElem hi]

/-- A key that does not occur is not in the index. -/
theorem lookUp_of_not_mem (h : IsIndexOf index keys) (hkey : some key ∉ keys) :
    lookUp index values key = .ok none := by
  cases hindex : index[key]? with
  | none => rw [lookUp, hindex]
  | some i => exact absurd (List.mem_of_getElem? ((h key i).1 hindex).1) hkey

end

namespace IsIndexed

variable {t : ArgumentTable} {args : Arguments} {origin : SlotOrigin}

/-- **A name finds the value of its slot**, where names are different. -/
theorem get?_name (h : t.IsIndexed) (hnames : (t.slots.map Slot.name).Nodup) {i : Nat}
    {slot : Slot} (hslot : t.slots[i]? = some slot) : t.get? slot.name = .ok t.values[i]? := by
  have hkeys : (t.slots.map fun slot => some slot.name).Nodup := by
    rw [← Function.comp_def, ← List.map_map]
    exact hnames.map fun _ _ => Option.some.inj
  -- The index has the last slot of a name, which is its only one.
  refine lookUp_of_isLastAt h.byName (by simpa using h.length_eq) (isLastAt_of_nodup hkeys ?_)
  rw [List.getElem?_map, hslot, Option.map_some]

theorem get?_of_not_mem (h : t.IsIndexed) {name : String} (hname : name ∉ t.slots.map Slot.name) :
    t.get? name = .ok none :=
  lookUp_of_not_mem h.byName (by simpa using hname)

/-- **An origin finds the value of its last slot**, if arguments are looked up by it. -/
theorem byOrigin?_of_isLastAt (h : t.IsIndexed) {i : Nat} (hkeyed : origin.isKeyed = true)
    (hlast : IsLastAt (t.slots.map Slot.origin) origin i) :
    t.byOrigin? origin = .ok t.values[i]? := by
  refine lookUp_of_isLastAt h.byKey (by simpa using h.length_eq) ?_
  simpa [IsLastAt, Slot.key?_eq_some_iff, hkeyed] using hlast

theorem byOrigin?_of_not_mem (h : t.IsIndexed) (horigin : origin ∉ t.slots.map Slot.origin) :
    t.byOrigin? origin = .ok none := by
  refine lookUp_of_not_mem h.byKey fun hmem => ?_
  obtain ⟨slot, hslot, hkey⟩ := List.mem_map.1 hmem
  exact horigin (List.mem_map.2 ⟨slot, hslot, (Slot.key?_eq_some_iff.1 hkey).1⟩)

/-- Slots of other origins are not looked up. -/
theorem byOrigin?_of_not_isKeyed (h : t.IsIndexed) (hkeyed : origin.isKeyed = false) :
    t.byOrigin? origin = .ok none := by
  refine lookUp_of_not_mem h.byKey fun hmem => ?_
  obtain ⟨slot, -, hkey⟩ := List.mem_map.1 hmem
  exact absurd (Slot.key?_eq_some_iff.1 hkey).2 (by simp [hkeyed])

/-- **A name is looked up as it is sought in the list.** -/
theorem get?_eq (h : t.IsIndexed) (htable : t.IsTableOf args) (hargs : args.IsNumbered)
    (name : String) : t.get? name = .ok (args.get? name) := by
  cases hget : args.get? name with
  | none =>
    have hnone := Arguments.get?_eq_none_iff.1 hget
    exact h.get?_of_not_mem (by simpa [htable.slots, Arguments.slots] using hnone)
  | some v =>
    obtain ⟨a, ha, rfl, rfl⟩ := Arguments.exists_of_get?_eq_some hget
    obtain ⟨i, hi⟩ := List.getElem?_of_mem ha
    rw [h.get?_name (htable.nodup_names hargs) (htable.getElem?_slots hi),
      htable.getElem?_values hi]

/-- **A place is looked up as it is sought in the list**, from behind. -/
theorem byOrigin?_eq (h : t.IsIndexed) (htable : t.IsTableOf args) (origin : SlotOrigin) :
    t.byOrigin? origin = .ok (args.byOrigin? origin) := by
  by_cases hkeyed : origin.isKeyed = true
  · have horigins : t.slots.map Slot.origin = args.entries.map fun a => a.slot.origin := by
      rw [htable.slots, Arguments.slots, List.map_map]
      rfl
    rw [Arguments.byOrigin?, if_pos hkeyed]
    by_cases hmem : origin ∈ t.slots.map Slot.origin
    · obtain ⟨i, hlast⟩ := exists_isLastAt hmem
      rw [h.byOrigin?_of_isLastAt hkeyed hlast, htable.values, Arguments.values, List.getElem?_map]
      rw [horigins] at hlast
      rw [hlast.find?_reverse]
    · rw [h.byOrigin?_of_not_mem hmem, List.find?_eq_none.2, Option.map_none]
      simpa [horigins] using hmem
  · rw [Arguments.byOrigin?, if_neg hkeyed]
    exact h.byOrigin?_of_not_isKeyed (by simpa using hkeyed)

end IsIndexed

/-! ## Runs of pushes -/

/-- **What a table holds of literals** that were pushed in order: each is in its slot and found by
its name, and of those with one origin by which arguments are looked up the last is found. -/
structure Holds (t : ArgumentTable) (literals : List (SlotOrigin × Scalar)) : Prop where
  length_eq : t.slots.length = t.values.length
  slots : ∀ i : Nat, t.slots[i]? =
    literals[i]?.map fun literal => Slot.mk (Arguments.slotName i) literal.2.type literal.1
  values : ∀ i : Nat, t.values[i]? = literals[i]?.map Prod.snd
  nodup_names : (t.slots.map Slot.name).Nodup
  named : ∀ (i : Nat) slot, t.slots[i]? = some slot → t.get? slot.name = .ok t.values[i]?
  unnamed : ∀ name, name ∉ t.slots.map Slot.name → t.get? name = .ok none
  keyed : ∀ origin ∈ t.slots.map Slot.origin, origin.isKeyed = true →
    ∃ i, IsLastAt (t.slots.map Slot.origin) origin i ∧ t.byOrigin? origin = .ok t.values[i]?
  absent : ∀ origin, origin ∉ t.slots.map Slot.origin → t.byOrigin? origin = .ok none
  unkeyed : ∀ origin, origin.isKeyed = false → t.byOrigin? origin = .ok none

/-- **A table that shows what arguments show**, without a fault. -/
structure Shows (t : ArgumentTable) (args : Arguments) : Prop extends t.IsTableOf args where
  get?_eq : ∀ name, t.get? name = .ok (args.get? name)
  byOrigin?_eq : ∀ origin, t.byOrigin? origin = .ok (args.byOrigin? origin)
  fst_push : ∀ origin value, (t.push origin value).1 = (args.nextSlot origin value).parameter

/-- A parameter that stands for a value: its name finds it, and its type is that of the value. -/
structure Resolves (t : ArgumentTable) (p : Parameter) (value : Scalar) : Prop where
  get?_name : t.get? p.name = .ok (some value)
  type_eq : p.type = value.type

section

variable (literals : List (SlotOrigin × Scalar))

theorem isTableOf_pushAll :
    (empty.pushAll literals).IsTableOf (Arguments.empty.pushAll literals) :=
  isTableOf_empty.pushAll literals

/-- After any pushes the table shows what the list does. -/
theorem shows_pushAll : (empty.pushAll literals).Shows (Arguments.empty.pushAll literals) where
  toIsTableOf := isTableOf_pushAll literals
  get?_eq := (isIndexed_empty.pushAll literals).get?_eq (isTableOf_pushAll literals)
    (Arguments.isNumbered_empty.pushAll literals)
  byOrigin?_eq := (isIndexed_empty.pushAll literals).byOrigin?_eq (isTableOf_pushAll literals)
  fst_push := (isTableOf_pushAll literals).fst_push

theorem holds_pushAll : (empty.pushAll literals).Holds literals := by
  have h := isIndexed_empty.pushAll literals
  have htable := isTableOf_pushAll literals
  have hnames := htable.nodup_names (Arguments.isNumbered_empty.pushAll literals)
  refine ⟨h.length_eq, fun i => ?_, fun i => ?_, hnames, fun _ _ => h.get?_name hnames,
    fun _ => h.get?_of_not_mem, fun origin hmem hkeyed => ?_,
    fun _ => h.byOrigin?_of_not_mem, fun _ => h.byOrigin?_of_not_isKeyed⟩
  · rw [htable.slots, Arguments.slots_pushAll_empty, List.getElem?_map, List.getElem?_zipIdx,
      Option.map_map, Nat.zero_add]
    rfl
  · rw [htable.values, Arguments.values_pushAll_empty, List.getElem?_map]
  · obtain ⟨i, hlast⟩ := exists_isLastAt hmem
    exact ⟨i, hlast, h.byOrigin?_of_isLastAt hkeyed hlast⟩

/-- A parameter that a push gave still stands for its literal when others were pushed behind it. -/
theorem resolves_pushAll (origin : SlotOrigin) (value : Scalar)
    (later : List (SlotOrigin × Scalar)) :
    (((empty.pushAll literals).push origin value).2.pushAll later).Resolves
      ((empty.pushAll literals).push origin value).1 value := by
  have hlength : (empty.pushAll literals).slots.length = literals.length := by
    rw [(isTableOf_pushAll literals).slots, Arguments.slots_pushAll_empty]
    simp
  -- The push is one of a longer run, where its literal comes behind those that were there.
  have hrun : ((empty.pushAll literals).push origin value).2.pushAll later =
      empty.pushAll (literals ++ (origin, value) :: later) :=
    (pushAll_append empty literals ((origin, value) :: later)).symm
  have h := holds_pushAll (literals ++ (origin, value) :: later)
  have hliteral : (literals ++ (origin, value) :: later)[literals.length]? =
      some (origin, value) := by simp
  have hget := h.named literals.length ⟨_, _, _⟩ (by rw [h.slots, hliteral]; rfl)
  rw [h.values, hliteral] at hget
  refine ⟨?_, rfl⟩
  rw [hrun, push, hlength]
  exact hget

end

/-- **The indexes of a table agree with its lists** after every run of pushes: each literal is in
its numbered slot and found by its name, the last with an origin is found by the origin if arguments
are looked up by it, and the parameters that were given out go on to stand for their literals.  The
table shows what the arguments of the same pushes show. -/
theorem indexes_agree (literals : List (SlotOrigin × Scalar)) :
    let t := empty.pushAll literals
    t.IsIndexed ∧ t.Holds literals ∧ t.Shows (Arguments.empty.pushAll literals) ∧
      ∀ origin value later,
        ((t.push origin value).2.pushAll later).Resolves (t.push origin value).1 value :=
  ⟨isIndexed_empty.pushAll literals, holds_pushAll literals, shows_pushAll literals,
    resolves_pushAll literals⟩

/-- The later of two counts is found by their origin, and each of them by its name. -/
example :
    let t := empty.pushAll [(.top [], .int 5), (.filter [], .int 30), (.top [], .int 7)]
    t.byOrigin? (.top []) = .ok (some (.int 7)) ∧ t.get? "__p0" = .ok (some (.int 5)) ∧
      t.byOrigin? (.filter []) = .ok none :=
  ⟨by cbv, by cbv, by cbv⟩

end ArgumentTable

end QueryPlans
