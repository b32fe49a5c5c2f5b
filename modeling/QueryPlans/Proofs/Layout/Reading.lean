import QueryPlans.Proofs.Blocks
import QueryPlans.Proofs.Layout.Cells

/-!
# Proofs/Layout/Reading — what reading a row has seen

A row need not be wide enough for its layout.  Its cells are those it has, and blank ones behind
(`Row.toCells`); whatever reading it has answered is true of these cells, since the columns that
were needed for the answer were there.  Identity of a level is an equivalence on cells, and a level
that owns its columns is present on both of two rows with one entity, or on neither.
-/

namespace QueryPlans

namespace Row

/-- The cells of a row; a column that it does not have is blank. -/
def toCells (row : Row) : Cells := fun c => (row.get? c).getD .null

variable {row a b : Row} {c : Nat} {v : Scalar} {columns : List Nat} {answer : Bool}

theorem toCells_of_column (h : row.column c = .ok v) : row.toCells c = v := by
  rw [column] at h
  split at h
  · next hget =>
    cases h
    rw [toCells, hget, Option.getD_some]
  · cases h

theorem column_eq_toCells (h : c < row.width) : row.column c = .ok (row.toCells c) := by
  rw [column_of_lt h, toCells_of_column (column_of_lt h)]

theorem anyPresent_of_ok (h : row.anyPresent columns = .ok answer) :
    Cells.anyPresent columns row.toCells = answer := by
  induction columns with
  | nil =>
    cases h
    rfl
  | cons c rest ih =>
    rw [anyPresent] at h
    obtain ⟨v, hv, h⟩ := bind_eq_ok_iff.1 h
    rw [Cells.anyPresent, List.any_cons, toCells_of_column hv]
    cases hnull : v.isNull with
    | true =>
      rw [hnull, if_pos rfl] at h
      exact ih h
    | false =>
      rw [hnull] at h
      cases h
      rfl

theorem sameIn_of_ok (h : a.sameIn b columns = .ok answer) :
    Cells.sameIn columns a.toCells b.toCells = answer := by
  induction columns with
  | nil =>
    cases h
    rfl
  | cons c rest ih =>
    rw [sameIn] at h
    obtain ⟨v, hv, h⟩ := bind_eq_ok_iff.1 h
    obtain ⟨w, hw, h⟩ := bind_eq_ok_iff.1 h
    rw [Cells.sameIn, List.all_cons, toCells_of_column hv, toCells_of_column hw]
    cases hsame : v.same w with
    | true =>
      rw [hsame, if_pos rfl] at h
      exact ih h
    | false =>
      rw [hsame] at h
      cases h
      rfl

end Row

namespace Cells

variable {columns : List Nat} {a b c : Cells}

/-- Cells are the same in some columns if they agree there. -/
theorem sameIn_iff : sameIn columns a b = true ↔ AgreeOn columns a b := by
  simp [sameIn, AgreeOn, Scalar.same_iff_eq]

theorem AgreeOn.anyPresent_eq (h : AgreeOn columns a b) :
    anyPresent columns a = anyPresent columns b := by
  rw [anyPresent, anyPresent, Bool.eq_iff_iff, List.any_eq_true, List.any_eq_true]
  exact exists_congr fun c => and_congr_right fun hc => by rw [h c hc]

end Cells

namespace LevelInfo

variable {level : LevelInfo} {row : Row} {answer : Bool} {a b c : Cells}

/-! ## Answers about rows -/

/-- Whether cells show the level or one below it. -/
def isSubtreePresentIn (level : LevelInfo) (cells : Cells) : Bool :=
  Cells.anyPresent level.subtreeColumns cells

theorem isPresent_of_ok (h : level.isPresent row = .ok answer) :
    level.isPresentIn row.toCells = answer := Row.anyPresent_of_ok h

theorem isSubtreePresent_of_ok (h : level.isSubtreePresent row = .ok answer) :
    level.isSubtreePresentIn row.toCells = answer := Row.anyPresent_of_ok h

theorem hasKey_of_ok (h : level.hasKey row = .ok answer) :
    level.isKeyedIn row.toCells = answer := Row.anyPresent_of_ok h

/-- A comparison that has an answer has the one of the cells. -/
theorem sameEntity_of_ok {first : Row} (h : level.sameEntity first row = .ok answer) :
    level.isSame first.toCells row.toCells = answer := by
  obtain ⟨keyed, hkeyed, h⟩ := bind_eq_ok_iff.1 h
  obtain ⟨keyed', hkeyed', h⟩ := bind_eq_ok_iff.1 h
  rw [isSame, hasKey_of_ok hkeyed, hasKey_of_ok hkeyed']
  by_cases hne : keyed = keyed'
  · subst hne
    rw [bne_self_eq_false] at h
    rw [beq_self_eq_true, Bool.true_and]
    exact Row.sameIn_of_ok h
  · have hbne : (keyed != keyed') = true := bne_iff_ne.2 hne
    rw [hbne] at h
    cases h
    rw [beq_eq_false_iff_ne.2 hne, Bool.false_and]

/-- So has a reading. -/
theorem values_of_ok {properties : List (String × Scalar)} (h : level.read row = .ok properties) :
    level.values row.toCells = properties := by
  rw [read] at h
  rw [values]
  generalize level.properties = columns at h
  induction columns generalizing properties with
  | nil =>
    cases h
    rfl
  | cons column rest ih =>
    rw [List.mapM_cons] at h
    obtain ⟨first, hfirst, h⟩ := bind_eq_ok_iff.1 h
    obtain ⟨v, hv, hfirst⟩ := bind_eq_ok_iff.1 hfirst
    obtain ⟨others, hothers, h⟩ := bind_eq_ok_iff.1 h
    cases hfirst
    cases h
    rw [List.map_cons, Row.toCells_of_column hv, ih hothers]

/-! ## Identity -/

/-- Rows show one entity when they agree in its key, or without a key in everything. -/
theorem isSame_iff : level.isSame a b = true ↔
    level.isKeyedIn a = level.isKeyedIn b ∧
      Cells.AgreeOn (if level.isKeyedIn a then level.keyColumns else level.columns) a b := by
  rw [isSame, Bool.and_eq_true, beq_iff_eq, Cells.sameIn_iff]

theorem isSame_symm (h : level.isSame a b = true) : level.isSame b a = true := by
  obtain ⟨hkeyed, hagree⟩ := isSame_iff.1 h
  exact isSame_iff.2 ⟨hkeyed.symm, fun c hc => (hagree c (hkeyed ▸ hc)).symm⟩

theorem isSame_trans (h : level.isSame a b = true) (h' : level.isSame b c = true) :
    level.isSame a c = true := by
  obtain ⟨hkeyed, hagree⟩ := isSame_iff.1 h
  obtain ⟨hkeyed', hagree'⟩ := isSame_iff.1 h'
  refine isSame_iff.2 ⟨hkeyed.trans hkeyed', fun c hc => ?_⟩
  exact (hagree c hc).trans (hagree' c (hkeyed ▸ hc))

/-- **Being of the same entity is an equivalence of cells.** -/
theorem isEquivalence_isSame (level : LevelInfo) : IsEquivalence level.isSame :=
  ⟨level.isSame_self, isSame_symm, isSame_trans⟩

end LevelInfo

/-! ## Rows that are wide enough -/

/-- **Rows that show all levels of a layout.** -/
def Layout.ShowsLevels (layout : Layout) (rows : List Row) : Prop :=
  ∀ row ∈ rows, row.Shows layout.root.info.subtreeColumns row.toCells

/-- Rows of the width of the layout show its levels. -/
theorem LevelSpec.showsLevels {spec : LevelSpec} {layout : Layout} {rows : List Row}
    (h : spec.layout = .ok layout) (hwide : ∀ row ∈ rows, layout.width ≤ row.width) :
    layout.ShowsLevels rows := fun row hrow _ hc =>
  Row.column_eq_toCells ((lt_width_of_layout h hc).trans_le (hwide row hrow))

/-! ## Presence and identity -/

/-- An entity with a key is present. -/
theorem Level.Owns.isPresentIn_of_isKeyedIn {info : LevelInfo} {children : List Level}
    {cells : Cells} (h : Owns info children) (hkey : info.isKeyedIn cells = true) :
    info.isPresentIn cells = true := by
  obtain ⟨c, hc, hvalue⟩ := List.any_eq_true.1 hkey
  exact List.any_eq_true.2 ⟨c, h.key_mem c hc, hvalue⟩

/-- Rows that show one entity show both their level, or neither. -/
theorem Level.Owns.isPresentIn_eq {info : LevelInfo} {children : List Level} {a b : Cells}
    (h : Owns info children) (hsame : info.isSame a b = true) :
    info.isPresentIn a = info.isPresentIn b := by
  obtain ⟨hkeyed, hagree⟩ := LevelInfo.isSame_iff.1 hsame
  cases hkey : info.isKeyedIn a with
  | false =>
    rw [hkey] at hagree
    exact Cells.AgreeOn.anyPresent_eq hagree
  | true => rw [h.isPresentIn_of_isKeyedIn hkey, h.isPresentIn_of_isKeyedIn (hkeyed ▸ hkey)]

/-- Presence is decided by the cells of a row that shows all there is from the level down. -/
theorem Level.Owns.isPresent_toCells {info : LevelInfo} {children : List Level} {row : Row}
    (h : Owns info children) (hshows : row.Shows info.subtreeColumns row.toCells) :
    info.isPresent row = .ok (info.isPresentIn row.toCells) :=
  (hshows.mono fun _ => h.subtree_of_mem).isPresent_eq

/-- Identity is decided by the cells of rows that show all there is from the level down. -/
theorem Level.Owns.sameEntity_toCells {info : LevelInfo} {children : List Level} {a b : Row}
    (h : Owns info children) (ha : a.Shows info.subtreeColumns a.toCells)
    (hb : b.Shows info.subtreeColumns b.toCells) :
    info.sameEntity a b = .ok (info.isSame a.toCells b.toCells) :=
  h.sameEntity_eq (ha.mono fun _ => h.subtree_of_mem) (hb.mono fun _ => h.subtree_of_mem)

/-- A row shows the entity that it shows. -/
theorem Level.Owns.sameEntity_self {info : LevelInfo} {children : List Level} {row : Row}
    (h : Owns info children) (hshows : row.Shows info.subtreeColumns row.toCells) :
    info.sameEntity row row = .ok true := by
  rw [h.sameEntity_toCells hshows hshows, LevelInfo.isSame_self]

/-- A row that shows a level shows something at it or below. -/
theorem Level.Owns.isSubtreePresentIn_of_isPresentIn {info : LevelInfo} {children : List Level}
    {cells : Cells} (h : Owns info children) (hpresent : info.isPresentIn cells = true) :
    info.isSubtreePresentIn cells = true := by
  obtain ⟨c, hc, hvalue⟩ := List.any_eq_true.1 hpresent
  exact List.any_eq_true.2 ⟨c, h.subtree_of_mem hc, hvalue⟩

end QueryPlans
