import QueryPlans.Proofs.Json.Numeral

/-!
# Proofs/Json/RoundTrip — trees come back from their text

Reading stops at the end of a tree: whatever follows its text is left over, provided that it cannot
continue a numeral (`ReadsBack`).  The bound on nested calls is twice the number of bytes, since an
item or a member costs two calls and at least one byte of its own.  By induction on trees every tree
reads back, so the compact text of a tree determines it (`ofBytes?_write`).
-/

namespace QueryPlans.Json

/-! ## Induction on trees -/

/-- **Induction on trees**: a property holds of every tree if the parts hand it on. -/
@[elab_as_elim] theorem induct {motive : Json → Prop} (null : motive null)
    (bool : ∀ b, motive (bool b)) (number : ∀ n, motive (number n))
    (string : ∀ text, motive (string text))
    (array : ∀ items, (∀ j ∈ items, motive j) → motive (array items))
    (object : ∀ members, (∀ m ∈ members, motive m.2) → motive (object members)) (j : Json) :
    motive j :=
  @Json.rec motive (fun items => ∀ j ∈ items, motive j) (fun members => ∀ m ∈ members, motive m.2)
    (fun m => motive m.2) null bool number string array object
    (fun _ h => nomatch h)
    (fun _ _ hj hrest => List.forall_mem_cons.2 ⟨hj, hrest⟩)
    (fun _ h => nomatch h)
    (fun _ _ hm hrest => List.forall_mem_cons.2 ⟨hm, hrest⟩)
    (fun _ _ hj => hj) j

/-! ## Where trees start and stop -/

theorem skipBlanks_cons {b : UInt8} (h : isBlankByte b = false) (rest : List UInt8) :
    skipBlanks (b :: rest) = b :: rest :=
  List.dropWhile_cons_of_neg (by simp [h])

/-- A byte that starts a tree: it is no blank, and it does not end an array. -/
def Opens (b : UInt8) : Prop := isBlankByte b = false ∧ (b == byteOf ']') = false

/-- A numeral starts with a sign or a digit. -/
theorem Numeral.exists_render_eq (n : Numeral) :
    ∃ b more, utf8 n.render = b :: more ∧ (b = byteOf '-' ∨ ∃ d, b = byteOf (digitChar d)) := by
  obtain ⟨d, digits, heq⟩ := List.exists_cons_of_ne_nil (digitsOfNat_ne_nil n.whole)
  rw [render_eq, utf8_append, utf8_append, utf8_append, utf8_map_digitChar]
  cases n.negative with
  | true => exact ⟨_, _, rfl, .inl rfl⟩
  | false =>
    rw [heq]
    exact ⟨_, _, rfl, .inr ⟨d, rfl⟩⟩

/-- What starts a numeral starts no other tree. -/
theorem leads {b : UInt8} (h : b = byteOf '-' ∨ ∃ d, b = byteOf (digitChar d)) :
    isBlankByte b = false ∧ (b == byteOf '"') = false ∧ (b == byteOf '[') = false ∧
      (b == byteOf '\x7b') = false ∧ (b == byteOf 'n') = false ∧ (b == byteOf 't') = false ∧
      (b == byteOf 'f') = false := by
  rcases h with rfl | ⟨d, rfl⟩
  · decide
  · revert d; decide

theorem exists_quote_eq (text : Option String) :
    ∃ more, utf8 (quote text) = byteOf '"' :: more := by
  obtain ⟨literal, heq, -⟩ := readText_quote text []
  exact ⟨literal, heq⟩

/-- The first byte of a tree tells what kind of tree it is. -/
theorem exists_write_eq (j : Json) : ∃ b more, utf8 j.write = b :: more ∧ Opens b := by
  cases j with
  | null => exact ⟨_, _, rfl, rfl, rfl⟩
  | bool b => cases b <;> exact ⟨_, _, rfl, rfl, rfl⟩
  | number n =>
    obtain ⟨b, more, heq, hlead⟩ := n.exists_render_eq
    refine ⟨b, more, heq, ?_⟩
    rcases hlead with rfl | ⟨d, rfl⟩
    · exact ⟨rfl, rfl⟩
    · have hdigit : ∀ d : Digit, isBlankByte (byteOf (digitChar d)) = false ∧
          (byteOf (digitChar d) == byteOf ']') = false := by decide
      exact hdigit d
  | string text =>
    obtain ⟨more, heq⟩ := exists_quote_eq text
    exact ⟨_, more, heq, rfl, rfl⟩
  | array items => cases items <;> exact ⟨_, _, rfl, rfl, rfl⟩
  | object members => cases members <;> exact ⟨_, _, rfl, rfl, rfl⟩

/-- Bytes that may stand behind a tree: nothing, a comma, or the end of an array or object. -/
def Closes (rest : List UInt8) : Prop :=
  ∀ b ∈ rest.head?, b = byteOf ',' ∨ b = byteOf ']' ∨ b = byteOf '\x7d'

theorem Closes.stops {rest : List UInt8} (h : Closes rest) : Stops rest := by
  intro b hb
  rcases h b hb with rfl | rfl | rfl <;> decide

theorem closes_writeItems (items : List Json) (rest : List UInt8) :
    Closes (utf8 (writeItems items) ++ rest) := by
  cases items <;> rintro b ⟨⟩ <;> decide

theorem closes_writeMembers (members : List (Option String × Json)) (rest : List UInt8) :
    Closes (utf8 (writeMembers members) ++ rest) := by
  cases members <;> rintro b ⟨⟩ <;> decide

/-! ## Reading back -/

/-- A tree is read from its text, and nothing of what follows. -/
def ReadsBack (j : Json) : Prop :=
  ∀ bound rest, 2 * (utf8 j.write).length ≤ bound → Closes rest →
    readTree bound (utf8 j.write ++ rest) = some (j, rest)

/-- A tree has a byte, so a bound on its reading is not zero. -/
theorem exists_bound {j : Json} {bound : Nat} (h : 2 * (utf8 j.write).length ≤ bound) :
    ∃ n, bound = n + 1 := by
  obtain ⟨b, more, heq, -⟩ := exists_write_eq j
  rw [heq, List.length_cons] at h
  exact Nat.exists_eq_add_of_le' (by omega)

theorem readsBack_null : ReadsBack null := by
  intro bound rest hbound _
  obtain ⟨bound, rfl⟩ := exists_bound hbound
  rw [readTree.eq_def]
  rfl

theorem readsBack_bool (b : Bool) : ReadsBack (bool b) := by
  intro bound rest hbound _
  obtain ⟨bound, rfl⟩ := exists_bound hbound
  rw [readTree.eq_def]
  cases b <;> rfl

theorem readsBack_number (n : Numeral) : ReadsBack (number n) := by
  intro bound rest hbound hrest
  have hread := readNumeral_render hrest.stops n
  obtain ⟨b, more, heq, hlead⟩ := n.exists_render_eq
  obtain ⟨bound, rfl⟩ := exists_bound hbound
  obtain ⟨hblank, htext, harray, hobject, hn, ht, hf⟩ := leads hlead
  rw [heq, List.cons_append] at hread
  rw [write, heq, List.cons_append, readTree.eq_def]
  dsimp only
  rw [skipBlanks_cons hblank]
  simp only [htext, harray, hobject, hn, ht, hf, hread, Bool.false_eq_true, if_false,
    Option.map_some]

theorem readsBack_string (text : Option String) : ReadsBack (string text) := by
  intro bound rest hbound _
  obtain ⟨literal, heq, hread⟩ := readText_quote text rest
  obtain ⟨bound, rfl⟩ := exists_bound hbound
  rw [write, heq, List.cons_append, readTree.eq_def]
  dsimp only
  rw [skipBlanks_cons rfl]
  dsimp only
  rw [if_pos (by decide), hread, Option.map_some]

/-! ## Arrays -/

/-- **Items read back** up to the end of their array. -/
theorem readItems_write {j : Json} {items : List Json} (hj : ReadsBack j)
    (hitems : ∀ i ∈ items, ReadsBack i) (bound : Nat) (rest : List UInt8)
    (hbound : 2 * ((utf8 j.write).length + (utf8 (writeItems items)).length) ≤ bound) :
    readItems bound (utf8 j.write ++ (utf8 (writeItems items) ++ rest)) =
      some (j :: items, rest) := by
  -- The comma or the bracket behind the item pays for the call that reads what follows.
  induction items generalizing j bound with
  | nil =>
    have hlength : (utf8 (writeItems [])).length = 1 := rfl
    obtain ⟨bound, rfl⟩ : ∃ n, bound = n + 1 := Nat.exists_eq_add_of_le' (by omega)
    rw [readItems, hj _ _ (by omega) (closes_writeItems [] rest)]
    rfl
  | cons i items ih =>
    have hwritten : utf8 (writeItems (i :: items)) =
        byteOf ',' :: (utf8 i.write ++ utf8 (writeItems items)) := by
      rw [writeItems, utf8_ascii (by decide), utf8_append]
    have hlength := congrArg List.length hwritten
    rw [List.length_cons, List.length_append] at hlength
    obtain ⟨bound, rfl⟩ : ∃ n, bound = n + 1 := Nat.exists_eq_add_of_le' (by omega)
    have htail := ih (hitems i List.mem_cons_self)
      (fun k hk => hitems k (List.mem_cons_of_mem i hk)) bound (by omega)
    rw [readItems, hj _ _ (by omega) (closes_writeItems (i :: items) rest), hwritten]
    simp only [Option.bind_eq_bind, Option.bind_some, List.cons_append, List.append_assoc]
    rw [skipBlanks_cons rfl]
    dsimp only
    rw [if_neg (by decide), if_pos (by decide), htail]
    rfl

/-- An array comes back if its items do. -/
theorem readsBack_array {items : List Json} (h : ∀ j ∈ items, ReadsBack j) :
    ReadsBack (array items) := by
  intro bound rest hbound _
  obtain ⟨bound, rfl⟩ := exists_bound hbound
  cases items with
  | nil =>
    rw [readTree.eq_def]
    rfl
  | cons j items =>
    have hwritten : utf8 (array (j :: items)).write =
        byteOf '[' :: (utf8 j.write ++ utf8 (writeItems items)) := by
      rw [write, utf8_ascii (by decide), utf8_append]
    rw [hwritten] at hbound ⊢
    rw [List.length_cons, List.length_append] at hbound
    have hitems := readItems_write (h j List.mem_cons_self)
      (fun i hi => h i (List.mem_cons_of_mem j hi)) bound rest (by omega)
    obtain ⟨b, more, heq, hblank, hclose⟩ := exists_write_eq j
    rw [heq, List.cons_append] at hitems
    rw [readTree.eq_def]
    simp only [heq, List.cons_append, List.append_assoc]
    rw [skipBlanks_cons rfl]
    dsimp only
    rw [if_neg (by decide), if_pos (by decide), skipBlanks_cons hblank]
    dsimp only
    rw [hclose, if_neg (by decide), hitems, Option.map_some]

/-! ## Objects -/

/-- A member is its name, a colon and its value, and then the object goes on or ends. -/
theorem readMembers_named (bound : Nat) (name : Option String) (after : List UInt8) :
    readMembers (bound + 1) (utf8 (quote name) ++ byteOf ':' :: after) =
      (readTree bound after).bind fun (value, rest) =>
        match skipBlanks rest with
        | [] => none
        | b :: rest =>
          if b == byteOf '\x7d' then some ([(name, value)], rest)
          else if b == byteOf ',' then
            (readMembers bound rest).bind fun (members, rest) =>
              some ((name, value) :: members, rest)
          else none := by
  obtain ⟨literal, heq, hread⟩ := readText_quote name (byteOf ':' :: after)
  rw [heq, List.cons_append, readMembers, skipBlanks_cons rfl]
  dsimp only
  rw [if_pos (by decide), hread]
  simp only [Option.bind_eq_bind, Option.bind_some]
  rw [skipBlanks_cons rfl]
  exact if_pos (by decide)

/-- **Members read back** up to the end of their object. -/
theorem readMembers_write (name : Option String) {j : Json} {members : List (Option String × Json)}
    (hj : ReadsBack j) (hmembers : ∀ m ∈ members, ReadsBack m.2) (bound : Nat) (rest : List UInt8)
    (hbound : 2 * ((utf8 (quote name)).length + 1 + (utf8 j.write).length +
      (utf8 (writeMembers members)).length) ≤ bound) :
    readMembers bound (utf8 (quote name) ++ byteOf ':' ::
      (utf8 j.write ++ (utf8 (writeMembers members) ++ rest))) =
      some ((name, j) :: members, rest) := by
  induction members generalizing name j bound with
  | nil =>
    have hlength : (utf8 (writeMembers [])).length = 1 := rfl
    -- Each member takes one from the bound, and has at least the bytes of its name to give for it.
    obtain ⟨bound, rfl⟩ : ∃ n, bound = n + 1 := Nat.exists_eq_add_of_le' (by omega)
    have htree := hj bound _ (by omega) (closes_writeMembers [] rest)
    rw [readMembers_named, htree]
    rfl
  | cons m members ih =>
    obtain ⟨name', j'⟩ := m
    have hwritten : utf8 (writeMembers ((name', j') :: members)) =
        byteOf ',' :: (utf8 (quote name') ++ byteOf ':' ::
          (utf8 j'.write ++ utf8 (writeMembers members))) := by
      rw [writeMembers, utf8_ascii (by decide), utf8_append, utf8_ascii (by decide), utf8_append]
    have hlength := congrArg List.length hwritten
    simp only [List.length_cons, List.length_append] at hlength
    obtain ⟨bound, rfl⟩ : ∃ n, bound = n + 1 := Nat.exists_eq_add_of_le' (by omega)
    have htree := hj bound _ (by omega) (closes_writeMembers ((name', j') :: members) rest)
    have hj' : ReadsBack j' := hmembers _ List.mem_cons_self
    have htail := ih name' hj' (fun k hk => hmembers k (List.mem_cons_of_mem _ hk)) bound (by omega)
    rw [readMembers_named, htree, hwritten]
    simp only [Option.bind_some, List.cons_append, List.append_assoc]
    rw [skipBlanks_cons rfl]
    dsimp only
    rw [if_neg (by decide), if_pos (by decide), htail]
    rfl

/-- An object comes back with its names, in order, if its values do. -/
theorem readsBack_object {members : List (Option String × Json)}
    (h : ∀ m ∈ members, ReadsBack m.2) : ReadsBack (object members) := by
  intro bound rest hbound _
  obtain ⟨bound, rfl⟩ := exists_bound hbound
  cases members with
  | nil =>
    rw [readTree.eq_def]
    rfl
  | cons m members =>
    obtain ⟨name, j⟩ := m
    have hwritten : utf8 (object ((name, j) :: members)).write =
        byteOf '\x7b' :: (utf8 (quote name) ++ byteOf ':' ::
          (utf8 j.write ++ utf8 (writeMembers members))) := by
      rw [write, utf8_ascii (by decide), utf8_append, utf8_ascii (by decide), utf8_append]
    rw [hwritten] at hbound ⊢
    simp only [List.length_cons, List.length_append] at hbound
    have hj : ReadsBack j := h _ List.mem_cons_self
    have hmembers := readMembers_write name hj (fun m hm => h m (List.mem_cons_of_mem _ hm)) bound
      rest (by omega)
    obtain ⟨more, heq⟩ := exists_quote_eq name
    rw [heq, List.cons_append] at hmembers
    rw [readTree.eq_def]
    simp only [heq, List.cons_append, List.append_assoc]
    rw [skipBlanks_cons rfl]
    dsimp only
    rw [if_neg (by decide), if_neg (by decide), if_pos (by decide), skipBlanks_cons rfl]
    dsimp only
    rw [if_neg (by decide), hmembers, Option.map_some]

/-! ## Trees -/

/-- **Every tree comes back from its bytes.** -/
theorem readsBack (j : Json) : ReadsBack j := by
  induction j using induct with
  | null => exact readsBack_null
  | bool b => exact readsBack_bool b
  | number n => exact readsBack_number n
  | string text => exact readsBack_string text
  | array items ih => exact readsBack_array ih
  | object members ih => exact readsBack_object ih

/-- **A tree reads back from the bytes of its text.** -/
theorem ofBytes?_write (j : Json) : ofBytes? (utf8 j.write) = some j := by
  have hread := readsBack j (2 * (utf8 j.write).length + 2) [] (by omega) nofun
  rw [List.append_nil] at hread
  rw [ofBytes?, hread]
  rfl

end QueryPlans.Json
