import QueryPlans.Proofs.Json.RoundTrip
import QueryPlans.Scalar.Interchange

/-!
# Proofs/Scalar/Interchange — scalars come back from their trees

A scalar other than a double reads back from its tree, with one exception.  An instant is written as
a number, and the reader takes integers within 64 bits only, signed or not; so an instant beyond
these is written and then refused (`ofJson?_toJson`).
-/

namespace QueryPlans

/-- An instant within 64 bits, signed or not. -/
def Instant.IsPortable (t : Instant) : Prop := Json.IsWord t.nanos

instance (t : Instant) : Decidable t.IsPortable := inferInstanceAs (Decidable (Json.IsWord _))

namespace Scalar

/-- A floating-point number, which is written but never read back. -/
def IsFloat : Scalar → Prop
  | float _ => True
  | _ => False

/-- Doubles aside, a scalar whose written number can be read as an integer. -/
def IsPortable : Scalar → Prop
  | float _ => False
  | dateTime t => t.IsPortable
  | _ => True

instance : DecidablePred IsPortable
  | null | bool _ | int _ | string _ | bytes _ => inferInstanceAs (Decidable True)
  | float _ => inferInstanceAs (Decidable False)
  | dateTime t => inferInstanceAs (Decidable t.IsPortable)

theorem IsPortable.not_isFloat {v : Scalar} (h : v.IsPortable) : ¬ v.IsFloat := by
  cases v with
  | float => exact h.elim
  | _ => exact id

end Scalar

/-! ## Leaves -/

/-- An integer is read back if it fits a word. -/
theorem Json.integer?_int (n : Int) :
    (Json.int n).integer? = if IsWord n then some n else none := integer?_ofInt n

theorem Json.integerWithin?_int {low high n : Int} (hlow : low ≤ n) (hhigh : n ≤ high)
    (hmin : IsWord low) (hmax : IsWord high) : (Json.int n).integerWithin? low high = some n := by
  have hword : IsWord n := ⟨Int.le_trans hmin.1 hlow, Int.lt_of_le_of_lt hhigh hmax.2⟩
  rw [integerWithin?, integer?_int, if_pos hword, Option.filter_some]
  simp [hlow, hhigh]

theorem Json.int64?_int (n : Int64) : (Json.int n.toInt).int64? = some n := by
  rw [int64?, integerWithin?_int n.minValue_le_toInt n.toInt_le (by decide) (by decide),
    Option.map_some, Int64.ofInt_toInt]

/-- Items read back if each does, and are refused if one is. -/
theorem Json.listOf?_map {α : Type} {toJson : α → Json} {ofJson? : Json → Option α} {P : α → Prop}
    [DecidablePred P] {items : List α}
    (h : ∀ a ∈ items, ofJson? (toJson a) = if P a then some a else none) :
    (Json.array (items.map toJson)).listOf? ofJson? =
      if ∀ a ∈ items, P a then some items else none := by
  change (items.map toJson).mapM ofJson? = _
  induction items with
  | nil => rfl
  | cons a items ih =>
    have hitems := ih fun b hb => h b (List.mem_cons_of_mem a hb)
    rw [List.map_cons, List.mapM_cons, h a List.mem_cons_self, hitems]
    by_cases ha : P a
    · by_cases hrest : ∀ b ∈ items, P b
      · rw [if_pos ha, if_pos hrest, if_pos (List.forall_mem_cons.2 ⟨ha, hrest⟩)]
        rfl
      · rw [if_pos ha, if_neg hrest, if_neg fun hall => hrest (List.forall_mem_cons.1 hall).2]
        rfl
    · rw [if_neg ha, if_neg fun hall => ha (List.forall_mem_cons.1 hall).1]
      rfl

/-- Bytes are written as integers. -/
theorem Json.bytes?_map (b : List UInt8) :
    (Json.array (b.map fun byte => .nat byte.toNat)).listOf? (·.integerWithin? 0 255) =
      some (b.map fun byte => (byte.toNat : Int)) := by
  have hbyte : ∀ n ∈ b.map fun byte => (byte.toNat : Int),
      (Json.int n).integerWithin? 0 255 = if True then some n else none := by
    intro n hn
    obtain ⟨byte, -, rfl⟩ := List.mem_map.1 hn
    have hlt := byte.toNat_lt
    rw [if_pos trivial, integerWithin?_int (by omega) (by omega) (by decide) (by decide)]
  have hread := listOf?_map hbyte
  rw [if_pos fun _ _ => trivial, List.map_map] at hread
  exact hread

theorem ScalarType.ofJson?_name (type : ScalarType) : ofJson? (.text type.name) = some type := by
  cases type <;> rfl

/-- **An instant is read back exactly if its number fits a word.** -/
theorem Instant.ofJson?_nanos (t : Instant) :
    ofJson? (.int t.nanos) = if t.IsPortable then some t else none := by
  rw [ofJson?, Json.integer?_int]
  by_cases h : Json.IsWord t.nanos
  · rw [if_pos h, if_pos (show t.IsPortable from h)]
    exact ofInt?_nanos t
  · -- What is no integer within 64 bits is no decimal text either.
    rw [if_neg h, if_neg (show ¬ t.IsPortable from h)]
    rfl

namespace Scalar

/-- **A value is read back exactly if it is portable**, floats aside. -/
theorem ofPayload?_payload {v : Scalar} (hfloat : ¬ v.IsFloat) :
    ofPayload? v.type (some v.payload) = if v.IsPortable then some v else none := by
  cases v with
  | null | bool | string => rfl
  | int n =>
    rw [if_pos (by trivial), payload, type, ofPayload?, Json.int64?_int, Option.map_some]
  | float x => exact absurd trivial hfloat
  | bytes b =>
    have hbytes : ∀ byte : UInt8, (byte.toNat : Int).toNat.toUInt8 = byte := fun byte => by
      rw [Int.toNat_natCast, Nat.toUInt8_eq, UInt8.ofNat_toNat]
    rw [if_pos (by trivial), payload, type, ofPayload?, Json.bytes?_map, Option.map_some,
      List.map_map]
    simp only [Function.comp_def, hbytes, List.map_id']
  | dateTime t =>
    rw [payload, type, ofPayload?, Instant.ofJson?_nanos]
    by_cases h : t.IsPortable
    · rw [if_pos h, if_pos (show (dateTime t).IsPortable from h), Option.map_some]
    · rw [if_neg h, if_neg (show ¬ (dateTime t).IsPortable from h), Option.map_none]

/-- **A scalar reads back from its tree** if it is portable, and is refused otherwise. -/
theorem ofJson?_toJson {v : Scalar} (h : ¬ v.IsFloat) :
    ofJson? v.toJson = if v.IsPortable then some v else none := by
  cases hnull : v.isNull with
  | true =>
    rw [isNull_iff.1 hnull]
    rfl
  | false =>
    have htree : v.toJson = .object [(some "t", .text v.type.name), (some "v", v.payload)] := by
      rw [toJson, hnull]
      rfl
    have hfields : v.toJson.namedFields? ["t", "v"] =
        some [some (.text v.type.name), some v.payload] := by
      rw [htree]
      rfl
    rw [← ofPayload?_payload h, htree, ofJson?, ← htree, hfields]
    · simp only [Option.bind_eq_bind, Option.bind_some, ScalarType.ofJson?_name]
    · nofun

end Scalar

end QueryPlans
