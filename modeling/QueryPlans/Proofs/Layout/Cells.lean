import Mathlib.Data.List.Basic
import QueryPlans.Proofs.Layout.WellFormed

/-!
# Proofs/Layout/Cells — what rows show, column by column

Reading a row may fail, so the functions on rows are computations.  On rows that show all the
columns in question they are plain functions of the cells: presence, keys and identity of a level
become Booleans (`Row.Shows`).
-/

namespace QueryPlans

/-- What stands in each column. -/
abbrev Cells : Type := Nat → Scalar

namespace Cells

/-- The cells of a row that has nothing. -/
def blank : Cells := fun _ => .null

/-- Cells with those of some columns replaced. -/
def overwrite (columns : List Nat) (value cells : Cells) : Cells := fun c =>
  if c ∈ columns then value c else cells c

/-- Whether one of the columns has a value. -/
def anyPresent (columns : List Nat) (cells : Cells) : Bool := columns.any fun c => !(cells c).isNull

/-- Whether the columns have identical values. -/
def sameIn (columns : List Nat) (a b : Cells) : Bool := columns.all fun c => (a c).same (b c)

/-- Cells that are the same in some columns. -/
def AgreeOn (columns : List Nat) (a b : Cells) : Prop := ∀ c ∈ columns, a c = b c

variable {columns : List Nat} {value cells a b : Cells}

theorem overwrite_of_mem {c : Nat} (h : c ∈ columns) : overwrite columns value cells c = value c :=
  if_pos h

theorem overwrite_of_not_mem {c : Nat} (h : c ∉ columns) :
    overwrite columns value cells c = cells c := if_neg h

/-- Overwritten cells have the new values in these columns. -/
theorem agreeOn_overwrite : AgreeOn columns (overwrite columns value cells) value :=
  fun _ hc => overwrite_of_mem hc

theorem sameIn_self : sameIn columns a a = true := List.all_eq_true.2 fun c _ => (a c).same_self

theorem anyPresent_blank : anyPresent columns blank = false := by
  simp [anyPresent, blank, Scalar.isNull]

end Cells

/-! ## Levels -/

namespace LevelInfo

variable (level : LevelInfo)

/-- Whether the cells show a level: one of its own columns is not null. -/
def isPresentIn (cells : Cells) : Bool := Cells.anyPresent level.columns cells

/-- Whether the cells have a part of the key of a level. -/
def isKeyedIn (cells : Cells) : Bool := Cells.anyPresent level.keyColumns cells

/-- Whether cells show one entity of the level. -/
def isSame (a b : Cells) : Bool :=
  level.isKeyedIn a == level.isKeyedIn b &&
    Cells.sameIn (if level.isKeyedIn a then level.keyColumns else level.columns) a b

/-- The properties that cells give an entity of the level. -/
def values (cells : Cells) : List (String × Scalar) :=
  level.properties.map fun property => (property.name, cells property.column)

theorem isSame_self (a : Cells) : level.isSame a a = true := by
  rw [isSame, beq_self_eq_true, Cells.sameIn_self, Bool.true_and]

end LevelInfo

/-! ## Rows -/

namespace Row

/-- **A row that shows cells** in some columns. -/
def Shows (columns : List Nat) (row : Row) (cells : Cells) : Prop :=
  ∀ c ∈ columns, row.column c = .ok (cells c)

/-- The row of the first cells. -/
def ofCells (width : Nat) (cells : Cells) : Row := ⟨(List.range width).map cells⟩

/-- A row that is wide enough shows the cells it was made of. -/
theorem shows_ofCells {width : Nat} {columns : List Nat} (h : ∀ c ∈ columns, c < width)
    (cells : Cells) : (ofCells width cells).Shows columns cells := by
  intro c hc
  have hlt : c < (ofCells width cells).width := by simpa [ofCells, Row.width] using h c hc
  rw [column_of_lt hlt]
  simp [ofCells]

variable {columns : List Nat} {row a b : Row} {cells ca cb : Cells}

theorem Shows.mono {columns' : List Nat} (h : row.Shows columns cells)
    (hsub : ∀ c ∈ columns', c ∈ columns) : row.Shows columns' cells := fun c hc => h c (hsub c hc)

/-- Only these columns matter. -/
theorem Shows.congr {cells' : Cells} (h : row.Shows columns cells)
    (hagree : Cells.AgreeOn columns cells cells') : row.Shows columns cells' := by
  intro c hc
  rw [h c hc, hagree c hc]

theorem Shows.anyPresent_eq (h : row.Shows columns cells) :
    row.anyPresent columns = .ok (Cells.anyPresent columns cells) := by
  induction columns with
  | nil => rfl
  | cons c rest ih =>
    rw [Shows, List.forall_mem_cons] at h
    rw [anyPresent, h.1, ok_bind, ih h.2, Cells.anyPresent, Cells.anyPresent, List.any_cons]
    cases (cells c).isNull <;> rfl

theorem Shows.sameIn_eq (ha : a.Shows columns ca) (hb : b.Shows columns cb) :
    a.sameIn b columns = .ok (Cells.sameIn columns ca cb) := by
  induction columns with
  | nil => rfl
  | cons c rest ih =>
    rw [Shows, List.forall_mem_cons] at ha hb
    rw [sameIn, ha.1, hb.1, ok_bind, ok_bind, ih ha.2 hb.2, Cells.sameIn, Cells.sameIn,
      List.all_cons]
    cases (ca c).same (cb c) <;> rfl

theorem Shows.isPresent_eq {info : LevelInfo} (h : row.Shows info.columns cells) :
    info.isPresent row = .ok (info.isPresentIn cells) := h.anyPresent_eq

end Row

namespace Level.Owns

variable {info : LevelInfo} {children : List Level} {row a b : Row} {cells ca cb : Cells}

theorem hasKey_eq (h : Owns info children) (hrow : row.Shows info.columns cells) :
    info.hasKey row = .ok (info.isKeyedIn cells) := (hrow.mono h.key_mem).anyPresent_eq

/-- A row that shows a level is compared by its cells. -/
theorem sameEntity_eq (h : Owns info children) (ha : a.Shows info.columns ca)
    (hb : b.Shows info.columns cb) : info.sameEntity a b = .ok (info.isSame ca cb) := by
  rw [LevelInfo.sameEntity, h.hasKey_eq ha, h.hasKey_eq hb, ok_bind, ok_bind, LevelInfo.isSame]
  have hkeys := (ha.mono h.key_mem).sameIn_eq (hb.mono h.key_mem)
  have hcolumns := ha.sameIn_eq hb
  cases info.isKeyedIn ca <;> cases info.isKeyedIn cb <;> simp [hkeys, hcolumns]

/-- A row that shows a level has the values of its cells. -/
theorem read_eq (h : Owns info children) (hrow : row.Shows info.columns cells) :
    info.read row = .ok (info.values cells) := by
  refine mapM_eq_ok fun property hproperty => ?_
  rw [hrow _ (h.property_mem property hproperty), ok_bind, pure_eq_ok]

end Level.Owns

end QueryPlans
