import Mathlib.Data.List.Sort
import QueryPlans.Layout.Spec
import QueryPlans.Proofs.Except

/-!
# Proofs/Layout/Columns — columns in order, and how wide a row is that has them

Sorting keeps columns as often as they are there (`perm_sortColumns`), a set of columns has each
once (`pairwise_columnSet`).  The width of columns is the least number above them all as long as
each has a successor (`Arithmetic.exists_widthOf`); the greatest word has none, which is a fault of
checked arithmetic, and gives no width at all when sums wrap around.
-/

namespace QueryPlans

/-! ## Sorting -/

/-- The insertion is the one of the library. -/
theorem insertSorted_eq (column : Nat) (columns : List Nat) :
    insertSorted column columns = columns.orderedInsert (· ≤ ·) column := by
  induction columns with
  | nil => rfl
  | cons first rest ih => rw [insertSorted, ih, List.orderedInsert_cons]

/-- So is the sort. -/
theorem sortColumns_eq (columns : List Nat) :
    sortColumns columns = columns.insertionSort (· ≤ ·) := by
  induction columns with
  | nil => rfl
  | cons first rest ih =>
    have hsort : sortColumns (first :: rest) = insertSorted first (sortColumns rest) := rfl
    rw [hsort, ih, insertSorted_eq, List.insertionSort_cons]

/-- Sorting changes nothing but the order. -/
theorem perm_sortColumns (columns : List Nat) : (sortColumns columns).Perm columns :=
  sortColumns_eq columns ▸ List.perm_insertionSort _ _

theorem pairwise_sortColumns (columns : List Nat) : (sortColumns columns).Pairwise (· ≤ ·) :=
  sortColumns_eq columns ▸ List.pairwise_insertionSort _ _

@[simp] theorem mem_sortColumns {c : Nat} {columns : List Nat} :
    c ∈ sortColumns columns ↔ c ∈ columns := (perm_sortColumns columns).mem_iff

/-! ## Sets -/

@[simp] theorem mem_insertColumn {c column : Nat} {columns : List Nat} :
    c ∈ insertColumn column columns ↔ c = column ∨ c ∈ columns := by
  induction columns with
  | nil => simp [insertColumn]
  | cons first rest ih =>
    rw [insertColumn]
    split_ifs with hlt heq
    · exact List.mem_cons
    · rw [heq, List.mem_cons, or_self_left]
    · rw [List.mem_cons, ih, List.mem_cons, or_left_comm]

@[simp] theorem mem_columnSet {c : Nat} {columns : List Nat} :
    c ∈ columnSet columns ↔ c ∈ columns := by
  induction columns with
  | nil => rfl
  | cons first rest ih =>
    have hset : columnSet (first :: rest) = insertColumn first (columnSet rest) := rfl
    rw [hset, mem_insertColumn, ih, List.mem_cons]

theorem pairwise_insertColumn {column : Nat} {columns : List Nat}
    (h : columns.Pairwise (· < ·)) : (insertColumn column columns).Pairwise (· < ·) := by
  induction columns with
  | nil => exact List.pairwise_singleton _ _
  | cons first rest ih =>
    rw [List.pairwise_cons] at h
    rw [insertColumn]
    split_ifs with hlt heq
    · refine List.pairwise_cons.2 ⟨fun c hc => ?_, List.pairwise_cons.2 h⟩
      rcases List.mem_cons.1 hc with rfl | hc
      · exact hlt
      · exact Nat.lt_trans hlt (h.1 c hc)
    · exact List.pairwise_cons.2 h
    · refine List.pairwise_cons.2 ⟨fun c hc => ?_, ih h.2⟩
      rcases mem_insertColumn.1 hc with rfl | hc
      · omega
      · exact h.1 c hc

/-- A set of columns is in order. -/
theorem pairwise_columnSet (columns : List Nat) : (columnSet columns).Pairwise (· < ·) := by
  induction columns with
  | nil => exact List.Pairwise.nil
  | cons first rest ih => exact pairwise_insertColumn ih

@[simp] theorem columnSet_eq_nil {columns : List Nat} : columnSet columns = [] ↔ columns = [] := by
  simp only [List.eq_nil_iff_forall_not_mem, mem_columnSet]

/-! ## Widths -/

namespace Arithmetic

variable {arithmetic : Arithmetic} {columns : List Nat} {e : LayoutError}

/-- Both arithmetics agree on a word that has a successor. -/
theorem successor_of_lt (arithmetic : Arithmetic) {word : Nat} (h : word < greatestWord) :
    arithmetic.successor word = .ok (word + 1) := by
  cases arithmetic with
  | checked => exact if_pos h
  | wrapping => exact congrArg _ (Nat.mod_eq_of_lt (Nat.succ_lt_succ h))

/-- **Only the greatest word has no successor**, and only where that is checked. -/
theorem successor_eq_error_iff {word : Nat} : arithmetic.successor word = .error e ↔
    arithmetic = checked ∧ greatestWord ≤ word ∧ e = .widthOverflow := by
  cases arithmetic with
  | checked =>
    rw [successor]
    split_ifs with h
    · simp [Nat.not_le.2 h]
    · simp [Nat.not_lt.1 h, eq_comm]
  | wrapping => simp [successor]

/-- **The width is the least number above all columns**, if these have successors. -/
theorem exists_widthOf (arithmetic : Arithmetic) (h : ∀ c ∈ columns, c < greatestWord) :
    ∃ width, arithmetic.widthOf columns = .ok width ∧ ∀ w, width ≤ w ↔ ∀ c ∈ columns, c < w := by
  rw [widthOf]
  cases hmax : columns.max? with
  | none =>
    rw [List.max?_eq_none_iff] at hmax
    exact ⟨0, rfl, by simp [hmax]⟩
  | some greatest =>
    obtain ⟨hmem, hle⟩ := List.max?_eq_some_iff.1 hmax
    refine ⟨greatest + 1, arithmetic.successor_of_lt (h _ hmem), fun w => ⟨fun hw c hc => ?_,
      fun hw => hw greatest hmem⟩⟩
    exact Nat.lt_of_le_of_lt (hle c hc) hw

/-- The width does not depend on the arithmetic as long as all columns have successors. -/
theorem widthOf_eq_checked (arithmetic : Arithmetic) (h : ∀ c ∈ columns, c < greatestWord) :
    arithmetic.widthOf columns = checked.widthOf columns := by
  rw [widthOf, widthOf]
  cases hmax : columns.max? with
  | none => rfl
  | some greatest =>
    have hlt : greatest < greatestWord := h _ (List.max?_eq_some_iff.1 hmax).1
    exact (arithmetic.successor_of_lt hlt).trans (checked.successor_of_lt hlt).symm

/-- **A column without a successor is a fault** of checked arithmetic, and the only one. -/
theorem widthOf_eq_error_iff : arithmetic.widthOf columns = .error e ↔
    arithmetic = checked ∧ (∃ c ∈ columns, greatestWord ≤ c) ∧ e = .widthOverflow := by
  rw [widthOf]
  cases hmax : columns.max? with
  | none =>
    rw [List.max?_eq_none_iff] at hmax
    simp [hmax]
  | some greatest =>
    obtain ⟨hmem, hle⟩ := List.max?_eq_some_iff.1 hmax
    have hgreatest : greatestWord ≤ greatest ↔ ∃ c ∈ columns, greatestWord ≤ c :=
      ⟨fun h => ⟨greatest, hmem, h⟩, fun ⟨c, hc, h⟩ => Nat.le_trans h (hle c hc)⟩
    rw [← hgreatest]
    exact successor_eq_error_iff

/-- Columns have a width unless one of them has no successor. -/
theorem exists_widthOf_iff : (∃ width, arithmetic.widthOf columns = .ok width) ↔
    (arithmetic = checked → ∀ c ∈ columns, c < greatestWord) := by
  constructor
  · rintro ⟨width, hwidth⟩ hchecked c hc
    by_contra hge
    cases hwidth.symm.trans (widthOf_eq_error_iff.2 ⟨hchecked, ⟨c, hc, Nat.not_lt.1 hge⟩, rfl⟩)
  · intro h
    cases hwidth : arithmetic.widthOf columns with
    | ok width => exact ⟨width, rfl⟩
    | error e =>
      obtain ⟨hchecked, ⟨c, hc, hge⟩, -⟩ := widthOf_eq_error_iff.1 hwidth
      exact absurd (h hchecked c hc) (Nat.not_lt.2 hge)

/-- The fault depends on which columns there are, and not on how they are listed. -/
theorem faultOf_widthOf_congr {columns' : List Nat} (h : ∀ c, c ∈ columns ↔ c ∈ columns') :
    faultOf (arithmetic.widthOf columns) = faultOf (arithmetic.widthOf columns') := by
  refine Option.ext fun e => ?_
  simp only [faultOf_eq_some_iff, widthOf_eq_error_iff, h]

/-- Whatever checked arithmetic takes for a width lies above all columns. -/
theorem lt_of_widthOf {width : Nat} (h : checked.widthOf columns = .ok width) {c : Nat}
    (hc : c ∈ columns) : c < width := by
  obtain ⟨least, hleast, hlt⟩ := exists_widthOf checked (exists_widthOf_iff.1 ⟨width, h⟩ rfl)
  cases h.symm.trans hleast
  exact (hlt width).1 (Nat.le_refl _) c hc

/-- The width wraps around to nothing when the greatest word is a column. -/
theorem widthOf_wrapping (hmem : greatestWord ∈ columns) (hle : ∀ c ∈ columns, c ≤ greatestWord) :
    wrapping.widthOf columns = .ok 0 := by
  rw [widthOf, List.max?_eq_some_iff.2 ⟨hmem, hle⟩]
  rfl

end Arithmetic

end QueryPlans
