import QueryPlans.Proofs.Layout.Columns

/-!
# Proofs/Layout/WellFormed — every column has one owner

Placing a description keeps a record of the columns that are owned.  Each level adds its own, none
of which was there (`checkLevel_eq_ok_iff`), and so does every level below it; hence a level shares
no column with the levels below it, and the subtrees of its navigations share none with each other
(`Level.Owns`).  So the columns of a subtree are those of its levels
(`Level.WellFormed.mem_subtree_iff`).  All of it lies within the width of the layout.
-/

namespace QueryPlans

/-! ## Induction -/

/-- **Induction on levels.** -/
@[elab_as_elim, induction_eliminator]
theorem Level.induct {motive : Level → Prop}
    (mk : ∀ info children, (∀ child ∈ children, motive child) → motive (.mk info children))
    (level : Level) : motive level :=
  @Level.rec motive (fun levels => ∀ level ∈ levels, motive level) mk (by simp)
    (fun _ _ head tail => List.forall_mem_cons.2 ⟨head, tail⟩) level

/-- **Induction on descriptions.** -/
@[elab_as_elim, induction_eliminator]
theorem LevelSpec.induct {motive : LevelSpec → Prop}
    (mk : ∀ properties keyColumns navigations continuation,
      (∀ navigation ∈ navigations, motive navigation.2.2) →
        motive (.mk properties keyColumns navigations continuation))
    (spec : LevelSpec) : motive spec :=
  @LevelSpec.rec motive (fun navigations => ∀ navigation ∈ navigations, motive navigation.2.2)
    (fun navigation => motive navigation.2.2) (fun target => motive target.2) mk (by simp)
    (fun _ _ head tail => List.forall_mem_cons.2 ⟨head, tail⟩) (fun _ _ h => h) (fun _ _ h => h)
    spec

/-! ## Checking a level -/

theorem firstRepeated?_eq_none_iff {seen names : List String} :
    firstRepeated? seen names = none ↔ names.Nodup ∧ ∀ name ∈ names, name ∉ seen := by
  induction names generalizing seen with
  | nil => simp [firstRepeated?]
  | cons name rest ih =>
    rw [firstRepeated?, List.nodup_cons, List.forall_mem_cons]
    by_cases hseen : name ∈ seen
    · simp [hseen]
    · simp only [List.contains_iff_mem, hseen, if_false, ih, List.mem_cons, not_or]
      constructor
      · rintro ⟨hnodup, hrest⟩
        exact ⟨⟨fun hmem => (hrest name hmem).1 rfl, hnodup⟩, not_false,
          fun other hother => (hrest other hother).2⟩
      · rintro ⟨⟨hname, hnodup⟩, -, hrest⟩
        exact ⟨hnodup, fun other hother => ⟨fun heq => hname (heq ▸ hother), hrest other hother⟩⟩

/-- No name is repeated if all are different. -/
theorem firstRepeated?_nil_eq_none_iff {names : List String} :
    firstRepeated? [] names = none ↔ names.Nodup := by
  simp [firstRepeated?_eq_none_iff]

/-- **A level is without faults of its own** if it owns columns, none of which is owned already, and
names its navigations apart. -/
theorem checkLevel_eq_ok_iff {label : String} {columns owned : List Nat} {names : List String} :
    checkLevel label columns owned names = .ok () ↔
      columns ≠ [] ∧ (∀ c ∈ columns, c ∉ owned) ∧ names.Nodup := by
  have hfind : columns.find? owned.contains = none ↔ ∀ c ∈ columns, c ∉ owned := by
    simp
  rw [checkLevel, ← firstRepeated?_nil_eq_none_iff, ← hfind, ← List.isEmpty_eq_false_iff]
  cases columns.isEmpty with
  | true => simp
  | false =>
    cases columns.find? owned.contains with
    | some column => simp
    | none => cases firstRepeated? [] names <;> simp

/-! ## Levels that own their columns -/

/-- **The columns of a level** and of the levels right below it. -/
structure Level.Owns (info : LevelInfo) (children : List Level) : Prop where
  property_mem : ∀ property ∈ info.properties, property.column ∈ info.columns
  key_mem : ∀ c ∈ info.keyColumns, c ∈ info.columns
  mem_subtree : ∀ c, c ∈ info.subtreeColumns ↔
    c ∈ info.columns ∨ ∃ child ∈ children, c ∈ child.info.subtreeColumns
  disjoint_below : ∀ child ∈ children, info.columns.Disjoint child.info.subtreeColumns
  disjoint_siblings : children.Pairwise fun a b =>
    a.info.subtreeColumns.Disjoint b.info.subtreeColumns

/-- A level that owns its columns, as all levels below it do. -/
inductive Level.WellFormed : Level → Prop
  | mk {info : LevelInfo} {children : List Level} (owns : Owns info children)
    (below : ∀ child ∈ children, WellFormed child) : WellFormed (.mk info children)

theorem Level.Owns.subtree_of_mem {info : LevelInfo} {children : List Level}
    (h : Owns info children) {c : Nat} (hc : c ∈ info.columns) : c ∈ info.subtreeColumns :=
  (h.mem_subtree c).2 (.inl hc)

theorem Level.Owns.subtree_of_child {info : LevelInfo} {children : List Level}
    (h : Owns info children) {child : Level} (hchild : child ∈ children) {c : Nat}
    (hc : c ∈ child.info.subtreeColumns) : c ∈ info.subtreeColumns :=
  (h.mem_subtree c).2 (.inr ⟨child, hchild, hc⟩)

/-- A well-formed level owns its columns within its subtree. -/
theorem Level.WellFormed.owns {level : Level} (h : level.WellFormed) :
    Owns level.info level.children := by
  cases h with
  | mk owns _ => exact owns

/-- Its children are well-formed. -/
theorem Level.WellFormed.child {level : Level} (h : level.WellFormed) {child : Level}
    (hchild : child ∈ level.children) : child.WellFormed := by
  cases h with
  | mk _ below => exact below child hchild

/-! ## Levels below -/

namespace Level

variable {level : Level}

theorem mem_preorderAll {levels : List Level} :
    level ∈ preorderAll levels ↔ ∃ other ∈ levels, level ∈ other.preorder := by
  induction levels with
  | nil => simp [preorderAll]
  | cons first rest ih => rw [preorderAll, List.mem_append, ih, List.exists_mem_cons_iff]

theorem preorderAll_singleton (level : Level) : preorderAll [level] = level.preorder :=
  List.append_nil _

theorem mem_preorder_self (level : Level) : level ∈ level.preorder := by
  obtain ⟨info, children⟩ := level
  exact List.mem_cons_self

/-- A level of a subtree is the level itself or below one of its children. -/
theorem mem_preorder_iff {info : LevelInfo} {children : List Level} :
    level ∈ (mk info children).preorder ↔
      level = mk info children ∨ ∃ child ∈ children, level ∈ child.preorder := by
  rw [preorder, List.mem_cons, mem_preorderAll]

theorem mem_preorder_of_mem_children {child : Level} (h : child ∈ level.children) :
    child ∈ level.preorder := by
  obtain ⟨info, children⟩ := level
  exact mem_preorder_iff.2 (.inr ⟨child, h, mem_preorder_self child⟩)

theorem WellFormed.of_mem_preorder (h : level.WellFormed) {other : Level}
    (hother : other ∈ level.preorder) : other.WellFormed := by
  induction level with
  | mk info children ih =>
    rcases mem_preorder_iff.1 hother with rfl | ⟨child, hchild, hbelow⟩
    · exact h
    · exact ih child hchild (h.child hchild) hbelow

/-- The columns of a level below belong to the subtree. -/
theorem WellFormed.subtree_mono (h : level.WellFormed) {other : Level}
    (hother : other ∈ level.preorder) {c : Nat} (hc : c ∈ other.info.subtreeColumns) :
    c ∈ level.info.subtreeColumns := by
  induction level with
  | mk info children ih =>
    rcases mem_preorder_iff.1 hother with rfl | ⟨child, hchild, hbelow⟩
    · exact hc
    · exact h.owns.subtree_of_child hchild (ih child hchild (h.child hchild) hbelow)

/-- The columns of a subtree are those of its levels. -/
theorem WellFormed.mem_subtree_iff (h : level.WellFormed) {c : Nat} :
    c ∈ level.info.subtreeColumns ↔ ∃ other ∈ level.preorder, c ∈ other.info.columns := by
  constructor
  · intro hc
    induction level with
    | mk info children ih =>
      rcases (h.owns.mem_subtree c).1 hc with hown | ⟨child, hchild, hbelow⟩
      · exact ⟨_, mem_preorder_self _, hown⟩
      · obtain ⟨other, hother, hc⟩ := ih child hchild (h.child hchild) hbelow
        exact ⟨other, mem_preorder_iff.2 (.inr ⟨child, hchild, hother⟩), hc⟩
  · rintro ⟨other, hother, hc⟩
    exact h.subtree_mono hother ((h.of_mem_preorder hother).owns.subtree_of_mem hc)

/-- The levels of a subtree stand next to one another. -/
theorem preorder_isInfix_preorderAll {levels : List Level} (h : level ∈ levels) :
    level.preorder <:+: preorderAll levels := by
  induction levels with
  | nil => cases h
  | cons first rest ih =>
    rcases List.mem_cons.1 h with rfl | h
    · exact (List.prefix_append _ _).isInfix
    · exact (ih h).trans (List.suffix_append _ _).isInfix

/-- **The levels of a subtree stand side by side.** -/
theorem preorder_isInfix {other : Level} (h : other ∈ level.preorder) :
    other.preorder <:+: level.preorder := by
  induction level with
  | mk info children ih =>
    rcases mem_preorder_iff.1 h with rfl | ⟨child, hchild, hbelow⟩
    · exact List.infix_rfl
    · exact (ih child hchild hbelow).trans
        ((preorder_isInfix_preorderAll hchild).trans (List.suffix_cons _ _).isInfix)

end Level

/-! ## Placing -/

/-- What placing has done to the record of owned columns. -/
structure Claims (columns owned owned' : List Nat) : Prop where
  fresh : ∀ c ∈ columns, c ∉ owned
  mem_iff : ∀ c, c ∈ owned' ↔ c ∈ owned ∨ c ∈ columns

/-- Levels that have been placed side by side. -/
structure SideBySide (levels : List Level) (owned owned' : List Nat) : Prop where
  wellFormed : ∀ level ∈ levels, level.WellFormed
  disjoint : levels.Pairwise fun a b => a.info.subtreeColumns.Disjoint b.info.subtreeColumns
  claims : Claims (levels.flatMap fun level => level.info.subtreeColumns) owned owned'

/-- The step of the induction from the navigations to their level: each claims columns of its own.
-/
theorem placeNavigations_sideBySide {parent depth : Nat}
    {navigations : List (String × Cardinality × LevelSpec)}
    (ih : ∀ navigation ∈ navigations, ∀ role parent depth placed level placed',
      navigation.2.2.place role parent depth placed = .ok (level, placed') →
        level.WellFormed ∧ Claims level.info.subtreeColumns placed.owned placed'.owned)
    {placed placed' : Placed} {levels : List Level}
    (h : placeNavigations parent depth navigations placed = .ok (levels, placed')) :
    SideBySide levels placed.owned placed'.owned := by
  induction navigations generalizing placed levels with
  | nil =>
    rw [placeNavigations] at h
    cases h
    exact ⟨by simp, List.Pairwise.nil, by simp, by simp⟩
  | cons navigation rest ihrest =>
    obtain ⟨name, cardinality, target⟩ := navigation
    rw [List.forall_mem_cons] at ih
    rw [placeNavigations] at h
    obtain ⟨⟨level, between⟩, hlevel, h⟩ := bind_eq_ok_iff.1 h
    obtain ⟨⟨others, after⟩, hothers, h⟩ := bind_eq_ok_iff.1 h
    cases h
    obtain ⟨hwf, hfresh, hmem⟩ := ih.1 _ _ _ _ _ _ hlevel
    -- What the first navigation has claimed is owned when the others are placed.
    obtain ⟨hwfs, hdisjoint, hfreshs, hmems⟩ := ihrest ih.2 hothers
    refine ⟨List.forall_mem_cons.2 ⟨hwf, hwfs⟩, List.pairwise_cons.2 ⟨?_, hdisjoint⟩, ?_, ?_⟩
    · intro other hother c hc hc'
      exact hfreshs c (List.mem_flatMap.2 ⟨other, hother, hc'⟩) ((hmem c).2 (.inr hc))
    · intro c hc
      rw [List.flatMap_cons, List.mem_append] at hc
      rcases hc with hc | hc
      · exact hfresh c hc
      · exact fun howned => hfreshs c hc ((hmem c).2 (.inl howned))
    · intro c
      rw [hmems, hmem, List.flatMap_cons, List.mem_append, or_assoc]

/-- **Placing gives levels that own their columns**, and claims these columns. -/
theorem LevelSpec.wellFormed_of_place (spec : LevelSpec) :
    ∀ role parent depth placed level placed',
      spec.place role parent depth placed = .ok (level, placed') →
        level.WellFormed ∧ Claims level.info.subtreeColumns placed.owned placed'.owned := by
  induction spec with
  | mk properties keyColumns navigations continuation ih =>
    intro role parent depth placed level placed' h
    rw [LevelSpec.place] at h
    obtain ⟨⟨⟩, hcheck, h⟩ := bind_eq_ok_iff.1 h
    obtain ⟨⟨children, after⟩, hchildren, h⟩ := bind_eq_ok_iff.1 h
    cases h
    obtain ⟨-, hfresh, -⟩ := checkLevel_eq_ok_iff.1 hcheck
    obtain ⟨hwf, hdisjoint, hbelow, hmem⟩ := placeNavigations_sideBySide ih hchildren
    simp only [List.mem_append, not_or] at hbelow hmem
    refine ⟨⟨⟨?_, ?_, ?_, ?_, hdisjoint⟩, hwf⟩, ?_, ?_⟩
    · intro property hproperty
      exact mem_columnSet.2 (List.mem_append_left _ (List.mem_map_of_mem hproperty))
    · intro c hc
      exact mem_columnSet.2 (List.mem_append_right _ hc)
    · intro c
      simp
    · intro child hchild c hc hc'
      exact (hbelow c (List.mem_flatMap.2 ⟨child, hchild, hc'⟩)).2 hc
    · intro c hc
      rw [Level.info, mem_sortColumns, List.mem_append] at hc
      rcases hc with hc | hc
      · exact hfresh c hc
      · exact (hbelow c hc).1
    · intro c
      simp only [hmem, Level.info, mem_sortColumns, List.mem_append, or_assoc]

/-! ## Layouts -/

/-- The columns that a layout reads: those of its levels, and those it continues by. -/
def Layout.columns (layout : Layout) : List Nat :=
  (layout.levels.flatMap fun level => level.info.columns) ++
    layout.continuation.map ContinuationColumn.column

namespace LevelSpec

variable {arithmetic : Arithmetic} {spec : LevelSpec} {layout : Layout}

/-- **A layout is what its description is placed as**, with the columns that it continues by. -/
theorem layoutWith_eq_ok_iff : spec.layoutWith arithmetic = .ok layout ↔
    (∃ placed, spec.place .root none 0 ⟨0, []⟩ = .ok (layout.root, placed)) ∧
      (∀ column ∈ spec.continuation, column.path ≠ []) ∧
      layout.continuation = spec.continuation ∧
      arithmetic.widthOf layout.columns = .ok layout.width := by
  have hpaths : (spec.continuation.find? fun column => column.path.isEmpty) = none ↔
      ∀ column ∈ spec.continuation, column.path ≠ [] := by
    simp
  constructor
  · intro h
    obtain ⟨⟨root, placed⟩, hplace, h⟩ := bind_eq_ok_iff.1 h
    dsimp only at h
    split at h
    · cases h
    · next hfind =>
      obtain ⟨width, hwidth, h⟩ := bind_eq_ok_iff.1 h
      cases h
      exact ⟨⟨placed, hplace⟩, hpaths.1 hfind, rfl, hwidth⟩
  · rintro ⟨⟨placed, hplace⟩, hfind, hcontinuation, hwidth⟩
    obtain ⟨root, continuation, width⟩ := layout
    cases hcontinuation
    rw [layoutWith, hplace, ok_bind, hpaths.2 hfind]
    exact bind_eq_ok_iff.2 ⟨width, hwidth, rfl⟩

/-- **The levels of a layout own their columns.** -/
theorem wellFormed_of_layout (h : spec.layoutWith arithmetic = .ok layout) :
    layout.root.WellFormed := by
  obtain ⟨⟨_, hplace⟩, -⟩ := layoutWith_eq_ok_iff.1 h
  exact (spec.wellFormed_of_place _ _ _ _ _ _ hplace).1

/-- Every column that is read lies within the width of the layout. -/
theorem column_lt_width (h : spec.layout = .ok layout) {c : Nat} (hc : c ∈ layout.columns) :
    c < layout.width :=
  Arithmetic.lt_of_widthOf (layoutWith_eq_ok_iff.1 h).2.2.2 hc

/-- Every column of a level lies within the width of the layout. -/
theorem lt_width_of_layout (h : spec.layout = .ok layout) {c : Nat}
    (hc : c ∈ layout.root.info.subtreeColumns) : c < layout.width :=
  column_lt_width h <| List.mem_append_left _ <|
    List.mem_flatMap.2 ((wellFormed_of_layout h).mem_subtree_iff.1 hc)

end LevelSpec

end QueryPlans
