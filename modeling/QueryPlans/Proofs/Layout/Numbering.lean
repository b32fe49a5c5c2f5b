import Mathlib.Data.List.Nodup
import QueryPlans.Proofs.Layout.Outline

/-!
# Proofs/Layout/Numbering — how the levels of a layout are numbered

Placing numbers levels as they come: a level, then those below it, then the next one.  So the levels
of a forest have consecutive indices, and parents lie outside it or before their children
(`LaysOut`).  From this follows what reads a layout by index: the children of a level are those with
its index as their parent, the levels of a subtree stand side by side, and the way up from a level
ends at the root, with the names that its description has there.
-/

namespace QueryPlans

open Level

/-! ## Levels as they are described -/

/-- The navigation that leads to a level. -/
def Role.navigation? : Role → Option (String × Cardinality)
  | root => none
  | navigation name cardinality => some (name, cardinality)

/-- What a layout tells of the description of a level. -/
def Layout.siteOf (layout : Layout) (level : Level) : Site where
  path := layout.navigationPath level.index
  role := level.info.role
  properties := level.info.properties
  keyColumns := level.info.keyColumns
  navigations := level.children.filterMap fun child => child.info.role.navigation?

/-! ## Forests -/

/-- Where levels are laid out: below a parent, if any, at a depth, from an index on. -/
structure Spot where
  parent : Option Nat
  depth : Nat
  next : Nat

/-- The spot of what lies below the level at a spot. -/
def Spot.below (spot : Spot) : Spot := ⟨some spot.next, spot.depth + 1, spot.next + 1⟩

/-- The spot behind levels at a spot. -/
def Spot.behind (spot : Spot) (count : Nat) : Spot := { spot with next := spot.next + count }

/-- A spot whose parent, if any, has been laid out. -/
def Spot.IsSound (spot : Spot) : Prop := ∀ parent, spot.parent = some parent → parent < spot.next

namespace Spot

variable {spot : Spot}

theorem isSound_below (spot : Spot) : spot.below.IsSound := by
  rintro _ ⟨⟩
  exact Nat.lt_succ_self _

theorem IsSound.behind (h : spot.IsSound) (count : Nat) : (spot.behind count).IsSound :=
  fun parent hparent => Nat.lt_of_lt_of_le (h parent hparent) (Nat.le_add_right _ _)

/-- Indices from a spot on are not its parent. -/
theorem IsSound.ne (h : spot.IsSound) {index : Nat} (hindex : spot.next ≤ index) :
    some index ≠ spot.parent :=
  fun hparent => Nat.not_lt.2 hindex (h index hparent.symm)

end Spot

/-- The level of a description, given what lies below it. -/
def Level.laidOut (spot : Spot) (role : Role) (properties : List PropertyColumn)
    (keyColumns : List Nat) (children : List Level) : Level :=
  let columns := columnSet (properties.map PropertyColumn.column ++ keyColumns)
  let below := children.flatMap fun child => child.info.subtreeColumns
  .mk { index := spot.next, role, properties, keyColumns, columns,
        subtreeColumns := sortColumns (columns ++ below), parent := spot.parent,
        depth := spot.depth } children

/-- The levels that have a parent. -/
def levelsUnder (parent : Option Nat) (levels : List Level) : List Level :=
  levels.filter fun level => level.info.parent = parent

/-- The descriptions of navigations with their roles. -/
def navigationRoles (navigations : List (String × Cardinality × LevelSpec)) :
    List (Role × LevelSpec) :=
  navigations.map fun navigation => (.navigation navigation.1 navigation.2.1, navigation.2.2)

/-- Sites below a level are those of its navigations, in order. -/
theorem sitesBelow_eq (path : List String)
    (navigations : List (String × Cardinality × LevelSpec)) :
    sitesBelow path navigations = (navigationRoles navigations).flatMap fun spec =>
      spec.2.sites (path ++ spec.1.name?.toList) spec.1 := by
  induction navigations with
  | nil => rfl
  | cons navigation rest ih =>
    obtain ⟨name, cardinality, target⟩ := navigation
    rw [sitesBelow, ih]
    rfl

/-- **Levels laid out at a spot**, each in front of those below it. -/
inductive LaysOut : Spot → List (Role × LevelSpec) → List Level → Prop
  | nil {spot : Spot} : LaysOut spot [] []
  | cons {spot : Spot} {role : Role} {properties : List PropertyColumn} {keyColumns : List Nat}
    {navigations : List (String × Cardinality × LevelSpec)}
    {continuation : List ContinuationColumn} {children levels : List Level}
    {specs : List (Role × LevelSpec)}
    (hbelow : LaysOut spot.below (navigationRoles navigations) children)
    (hbehind : LaysOut (spot.behind (1 + (Level.preorderAll children).length)) specs levels) :
    LaysOut spot ((role, .mk properties keyColumns navigations continuation) :: specs)
      (.laidOut spot role properties keyColumns children :: levels)

/-- The step of the induction from the navigations to their level. -/
theorem placeNavigations_laysOut {parent depth : Nat}
    {navigations : List (String × Cardinality × LevelSpec)}
    (ih : ∀ navigation ∈ navigations, ∀ role parent depth placed level placed',
      navigation.2.2.place role parent depth placed = .ok (level, placed') →
        placed'.next = placed.next + level.preorder.length ∧
        ∀ specs levels, LaysOut ⟨parent, depth, placed'.next⟩ specs levels →
          LaysOut ⟨parent, depth, placed.next⟩ ((role, navigation.2.2) :: specs) (level :: levels))
    {placed placed' : Placed} {levels : List Level}
    (h : placeNavigations parent depth navigations placed = .ok (levels, placed')) :
    placed'.next = placed.next + (Level.preorderAll levels).length ∧
      LaysOut ⟨some parent, depth, placed.next⟩ (navigationRoles navigations) levels := by
  induction navigations generalizing placed levels with
  | nil =>
    rw [placeNavigations] at h
    cases h
    exact ⟨rfl, .nil⟩
  | cons navigation rest ihrest =>
    obtain ⟨name, cardinality, target⟩ := navigation
    rw [List.forall_mem_cons] at ih
    rw [placeNavigations] at h
    obtain ⟨⟨level, between⟩, hlevel, h⟩ := bind_eq_ok_iff.1 h
    obtain ⟨⟨others, after⟩, hothers, h⟩ := bind_eq_ok_iff.1 h
    cases h
    obtain ⟨hnext, hlaysOut⟩ := ih.1 _ _ _ _ _ _ hlevel
    obtain ⟨hnext', hrest⟩ := ihrest ih.2 hothers
    refine ⟨?_, hlaysOut _ _ hrest⟩
    rw [hnext', hnext, Level.preorderAll, List.length_append, Nat.add_assoc]

/-- **Placing lays levels out**, one behind the other. -/
theorem LevelSpec.laysOut_of_place (spec : LevelSpec) :
    ∀ role parent depth placed level placed',
      spec.place role parent depth placed = .ok (level, placed') →
        placed'.next = placed.next + level.preorder.length ∧
        ∀ specs levels, LaysOut ⟨parent, depth, placed'.next⟩ specs levels →
          LaysOut ⟨parent, depth, placed.next⟩ ((role, spec) :: specs) (level :: levels) := by
  induction spec with
  | mk properties keyColumns navigations continuation ih =>
    intro role parent depth placed level placed' h
    rw [LevelSpec.place] at h
    obtain ⟨⟨⟩, -, h⟩ := bind_eq_ok_iff.1 h
    obtain ⟨⟨children, after⟩, hchildren, h⟩ := bind_eq_ok_iff.1 h
    cases h
    obtain ⟨hnext, hbelow⟩ := placeNavigations_laysOut ih hchildren
    refine ⟨?_, fun specs levels hrest => ?_⟩
    · rw [hnext, Level.preorder, List.length_cons, Nat.add_assoc, Nat.add_comm 1]
    · rw [hnext, Nat.add_assoc] at hrest
      exact .cons hbelow hrest

/-- **A layout lays out its specification**, from index zero. -/
theorem LevelSpec.laysOut_of_layout {arithmetic : Arithmetic} {spec : LevelSpec} {layout : Layout}
    (h : spec.layoutWith arithmetic = .ok layout) :
    LaysOut ⟨none, 0, 0⟩ [(.root, spec)] [layout.root] := by
  obtain ⟨⟨_, hplace⟩, -⟩ := layoutWith_eq_ok_iff.1 h
  exact (spec.laysOut_of_place _ _ _ _ _ _ hplace).2 _ _ .nil

namespace LaysOut

variable {spot : Spot} {specs : List (Role × LevelSpec)} {levels : List Level}

theorem preorderAll_laidOut (spot : Spot) (role : Role) (properties : List PropertyColumn)
    (keyColumns : List Nat) (children levels : List Level) :
    preorderAll (laidOut spot role properties keyColumns children :: levels) =
      laidOut spot role properties keyColumns children ::
        (preorderAll children ++ preorderAll levels) := rfl

/-- What holds of every level that is laid out above others holds of all levels of a forest. -/
theorem forall_preorderAll {motive : Level → Prop} (h : LaysOut spot specs levels)
    (hlaidOut : ∀ {spot specs children} (role properties keyColumns),
      LaysOut (.below spot) specs children →
        motive (laidOut spot role properties keyColumns children)) :
    ∀ level ∈ preorderAll levels, motive level := by
  induction h with
  | nil => exact List.forall_mem_nil _
  | cons hbelow _ ihbelow ihbehind =>
    rw [preorderAll_laidOut, List.forall_mem_cons, List.forall_mem_append]
    exact ⟨hlaidOut _ _ _ hbelow, ihbelow, ihbehind⟩

/-! ## Indices -/

/-- **The levels of a forest have consecutive indices.** -/
theorem map_index (h : LaysOut spot specs levels) : (preorderAll levels).map Level.index =
    List.range' spot.next (preorderAll levels).length := by
  induction h with
  | nil => rfl
  | cons _ _ ihbelow ihbehind =>
    rw [preorderAll_laidOut, List.map_cons, List.map_append, ihbelow, ihbehind, List.length_cons,
      List.length_append, List.range'_succ, ← List.range'_append_1]
    simp only [Spot.below, Spot.behind, Nat.add_assoc]
    rfl

/-- **The levels of a subtree have consecutive indices**, from that of its first level on. -/
theorem map_index_preorder (h : LaysOut spot specs levels) : ∀ level ∈ preorderAll levels,
    level.preorder.map Level.index = List.range' level.index level.preorder.length :=
  h.forall_preorderAll fun _ _ _ hbelow =>
    congrArg (List.cons _) hbelow.map_index

/-- The indices of levels laid out at a spot follow it, one for each level. -/
theorem index_bounds (h : LaysOut spot specs levels) {level : Level}
    (hlevel : level ∈ preorderAll levels) :
    spot.next ≤ level.index ∧ level.index < spot.next + (preorderAll levels).length := by
  rw [← List.mem_range'_1, ← h.map_index]
  exact List.mem_map_of_mem hlevel

/-- The first levels of a forest lie at its spot. -/
theorem root (h : LaysOut spot specs levels) : ∀ level ∈ levels,
    level.info.parent = spot.parent ∧ level.info.depth = spot.depth ∧ spot.next ≤ level.index := by
  induction h with
  | nil => exact List.forall_mem_nil _
  | cons _ _ _ ihbehind =>
    refine List.forall_mem_cons.2 ⟨⟨rfl, rfl, Nat.le_refl _⟩, fun level hlevel => ?_⟩
    obtain ⟨hparent, hdepth, hnext⟩ := ihbehind level hlevel
    exact ⟨hparent, hdepth, Nat.le_trans (Nat.le_add_right _ _) hnext⟩

/-- **A parent lies outside the forest**, or in it and in front of the level. -/
theorem parent (h : LaysOut spot specs levels) : ∀ level ∈ preorderAll levels,
    level.info.parent = spot.parent ∨
      ∃ q, level.info.parent = some q ∧ spot.next ≤ q ∧ q < level.index := by
  induction h with
  | nil => exact List.forall_mem_nil _
  | @cons spot _ _ _ _ _ _ _ _ hbelow _ ihbelow ihbehind =>
    rw [preorderAll_laidOut, List.forall_mem_cons, List.forall_mem_append]
    refine ⟨.inl rfl, fun level hlevel => .inr ?_, fun level hlevel => ?_⟩
    · rcases ihbelow level hlevel with hparent | ⟨q, hparent, hnext, hq⟩
      · exact ⟨spot.next, hparent, Nat.le_refl _, (hbelow.index_bounds hlevel).1⟩
      · exact ⟨q, hparent, Nat.le_of_succ_le hnext, hq⟩
    · rcases ihbehind level hlevel with hparent | ⟨q, hparent, hnext, hq⟩
      · exact .inl hparent
      · exact .inr ⟨q, hparent, Nat.le_trans (Nat.le_add_right _ _) hnext, hq⟩

/-! ## Children -/

theorem levelsUnder_laidOut (p : Option Nat) (spot : Spot) (role : Role)
    (properties : List PropertyColumn) (keyColumns : List Nat) (children levels : List Level) :
    levelsUnder p (preorderAll (laidOut spot role properties keyColumns children :: levels)) =
      (if spot.parent = p then [laidOut spot role properties keyColumns children] else []) ++
        (levelsUnder p (preorderAll children) ++ levelsUnder p (preorderAll levels)) := by
  have hparent : (laidOut spot role properties keyColumns children).info.parent = spot.parent := rfl
  rw [preorderAll_laidOut, levelsUnder, List.filter_cons, List.filter_append, hparent]
  by_cases hp : spot.parent = p
  · rw [if_pos (decide_eq_true hp), if_pos hp]
    rfl
  · rw [if_neg (by simpa using hp), if_neg hp]
    rfl

/-- No level of a forest has a parent outside of it, apart from that of its spot. -/
theorem levelsUnder_eq_nil (h : LaysOut spot specs levels) {p : Option Nat} (hne : p ≠ spot.parent)
    (hout : ∀ q, p = some q → q < spot.next ∨ spot.next + (preorderAll levels).length ≤ q) :
    levelsUnder p (preorderAll levels) = [] := by
  rw [levelsUnder, List.filter_eq_nil_iff]
  intro level hlevel hparent
  rw [decide_eq_true_iff] at hparent
  rcases h.parent level hlevel with hspot | ⟨q, hq, hnext, hlt⟩
  · exact hne (hparent.symm.trans hspot)
  · have hbound := (h.index_bounds hlevel).2
    rcases hout q (hparent.symm.trans hq) with hbefore | hbehind
    · omega
    · omega

/-- No level under another one is laid out elsewhere. -/
theorem levelsUnder_some_eq_nil (h : LaysOut spot specs levels) {q : Nat}
    (hne : some q ≠ spot.parent)
    (hout : q < spot.next ∨ spot.next + (preorderAll levels).length ≤ q) :
    levelsUnder (some q) (preorderAll levels) = [] :=
  h.levelsUnder_eq_nil hne fun _ hq => Option.some.inj hq ▸ hout

/-- The first levels of a forest are those with the parent of its spot. -/
theorem levelsUnder_parent (h : LaysOut spot specs levels) (hsound : spot.IsSound) :
    levelsUnder spot.parent (preorderAll levels) = levels := by
  induction h with
  | nil => rfl
  | @cons spot _ _ _ _ _ _ _ _ hbelow _ _ ihbehind =>
    have hnone := hbelow.levelsUnder_eq_nil (hsound.ne (Nat.le_refl _)).symm
      fun q hq => .inl (Nat.lt_succ_of_lt (hsound q hq))
    rw [levelsUnder_laidOut, if_pos rfl, hnone, List.nil_append]
    exact congrArg _ (ihbehind (hsound.behind _))

/-- **The children of a level** are the levels that have it as their parent. -/
theorem levelsUnder_index (h : LaysOut spot specs levels) (hsound : spot.IsSound) :
    ∀ level ∈ preorderAll levels,
      levelsUnder (some level.index) (preorderAll levels) = level.children := by
  induction h with
  | nil => exact List.forall_mem_nil _
  | @cons spot role properties keyColumns _ _ children levels _ hbelow hbehind ihbelow ihbehind =>
    rw [preorderAll_laidOut, List.forall_mem_cons, List.forall_mem_append, ← preorderAll_laidOut]
    -- The first level, a level below it, or a level behind: two of the three parts have none under
    -- it.
    refine ⟨?_, fun level hlevel => ?_, fun level hlevel => ?_⟩
    · have hne : some spot.next ≠ spot.parent := hsound.ne (Nat.le_refl _)
      have hnone := hbehind.levelsUnder_some_eq_nil hne (.inl (by dsimp only [Spot.behind]; omega))
      have hindex : (laidOut spot role properties keyColumns children).index = spot.next := rfl
      rw [hindex, levelsUnder_laidOut, if_neg hne.symm, hnone, List.nil_append, List.append_nil]
      exact hbelow.levelsUnder_parent (Spot.isSound_below spot)
    · obtain ⟨hnext, hlt⟩ := hbelow.index_bounds hlevel
      dsimp only [Spot.below] at hnext hlt
      have hne : some level.index ≠ spot.parent := hsound.ne (by omega)
      have hnone := hbehind.levelsUnder_some_eq_nil hne (.inl (by dsimp only [Spot.behind]; omega))
      rw [levelsUnder_laidOut, if_neg hne.symm, hnone, List.nil_append, List.append_nil,
        ihbelow (Spot.isSound_below spot) level hlevel]
    · have hnext := (hbehind.index_bounds hlevel).1
      dsimp only [Spot.behind] at hnext
      have hne : some level.index ≠ spot.parent := hsound.ne (by omega)
      have hne' : some level.index ≠ some spot.next := fun heq => by
        have := Option.some.inj heq
        omega
      have hnone := hbelow.levelsUnder_some_eq_nil hne' (.inr (by dsimp only [Spot.below]; omega))
      rw [levelsUnder_laidOut, if_neg hne.symm, hnone, List.nil_append, List.nil_append,
        ihbehind (hsound.behind _) level hlevel]

/-- Children lie behind their parent and one deeper. -/
theorem children (h : LaysOut spot specs levels) : ∀ level ∈ preorderAll levels,
    ∀ child ∈ level.children,
      level.index < child.index ∧ child.info.depth = level.info.depth + 1 :=
  h.forall_preorderAll fun _ _ _ hbelow child hchild =>
    have ⟨_, hdepth, hnext⟩ := hbelow.root child hchild
    ⟨hnext, hdepth⟩

/-! ## Columns -/

theorem columns_eq (h : LaysOut spot specs levels) : ∀ level ∈ preorderAll levels,
    level.info.columns = columnSet
      (level.info.properties.map PropertyColumn.column ++ level.info.keyColumns) :=
  h.forall_preorderAll fun _ _ _ _ => rfl

/-- The columns of a subtree are in order. -/
theorem pairwise_subtreeColumns (h : LaysOut spot specs levels) : ∀ level ∈ preorderAll levels,
    level.info.subtreeColumns.Pairwise (· ≤ ·) :=
  h.forall_preorderAll fun _ _ _ _ => pairwise_sortColumns _

/-- What lies below a level has the columns of its levels; so has the level with what lies below. -/
theorem perm_laidOut {children : List Level} (spot : Spot) (role : Role)
    (properties : List PropertyColumn) (keyColumns : List Nat)
    (hbelow : (children.flatMap fun child => child.info.subtreeColumns).Perm
      ((preorderAll children).flatMap fun level => level.info.columns)) :
    (laidOut spot role properties keyColumns children).info.subtreeColumns.Perm
      ((laidOut spot role properties keyColumns children).preorder.flatMap
        fun level => level.info.columns) :=
  (perm_sortColumns _).trans (hbelow.append_left _)

/-- **The columns of a forest's subtrees are those of its levels**, each as often as it is there. -/
theorem perm_flatMap (h : LaysOut spot specs levels) :
    (levels.flatMap fun level => level.info.subtreeColumns).Perm
      ((preorderAll levels).flatMap fun level => level.info.columns) := by
  induction h with
  | nil => exact .refl _
  | cons _ _ ihbelow ihbehind =>
    rw [preorderAll, List.flatMap_cons, List.flatMap_append]
    exact (perm_laidOut _ _ _ _ ihbelow).append ihbehind

/-- The columns of a subtree are those of its levels, sorted. -/
theorem perm_preorder (h : LaysOut spot specs levels) : ∀ level ∈ preorderAll levels,
    level.info.subtreeColumns.Perm (level.preorder.flatMap fun other => other.info.columns) :=
  h.forall_preorderAll fun _ _ _ hbelow => perm_laidOut _ _ _ _ hbelow.perm_flatMap

/-! ## Outlines -/

theorem map_role (h : LaysOut spot specs levels) :
    levels.map (fun level => level.info.role) = specs.map Prod.fst := by
  induction h with
  | nil => rfl
  | cons _ _ _ ihbehind =>
    rw [List.map_cons, List.map_cons, ihbehind]
    rfl

/-- **The levels of a forest are those of its descriptions**, if each is reached from its parent. -/
theorem map_siteOf {layout : Layout} (h : LaysOut spot specs levels) {path : List String}
    (hspot : spot.parent.elim [] layout.navigationPath = path)
    (hpath : ∀ level ∈ preorderAll levels, layout.navigationPath level.index =
      level.info.parent.elim [] layout.navigationPath ++ level.info.role.name?.toList) :
    (preorderAll levels).map layout.siteOf =
      specs.flatMap fun spec => spec.2.sites (path ++ spec.1.name?.toList) spec.1 := by
  induction h generalizing path with
  | nil => rfl
  | @cons spot role properties keyColumns navigations _ children levels specs hbelow _ ihbelow
      ihbehind =>
    rw [preorderAll_laidOut, List.forall_mem_cons, List.forall_mem_append] at hpath
    obtain ⟨hroot, hchildren, hlevels⟩ := hpath
    have hindex : layout.navigationPath spot.next = path ++ role.name?.toList := by
      rw [← hspot]
      exact hroot
    have hnavigations : children.filterMap (fun child => child.info.role.navigation?) =
        navigations.map fun navigation => (navigation.1, navigation.2.1) := by
      have hroles : children.filterMap (fun child => child.info.role.navigation?) =
          (children.map fun child => child.info.role).filterMap Role.navigation? := by
        rw [List.filterMap_map]
        rfl
      rw [hroles, hbelow.map_role, navigationRoles, List.map_map, List.filterMap_map]
      exact congrFun List.filterMap_eq_map navigations
    have hsite : layout.siteOf (laidOut spot role properties keyColumns children) =
        ⟨path ++ role.name?.toList, role, properties, keyColumns,
          navigations.map fun navigation => (navigation.1, navigation.2.1)⟩ := by
      rw [← hindex, ← hnavigations]
      rfl
    rw [preorderAll_laidOut, List.map_cons, List.map_append, ihbelow hindex hchildren,
      ihbehind hspot hlevels, List.flatMap_cons, LevelSpec.sites, sitesBelow_eq, hsite]
    rfl

end LaysOut

/-! ## Layouts -/

/-- The root is the first level. -/
theorem Layout.getElem?_zero (layout : Layout) : layout.levels[0]? = some layout.root := by
  obtain ⟨⟨info, children⟩, continuation, width⟩ := layout
  rfl

/-- The children of the levels of a layout are levels of it. -/
theorem Layout.mem_levels_of_child {layout : Layout} {level child : Level}
    (hlevel : level ∈ layout.levels) (hchild : child ∈ level.children) :
    child ∈ layout.levels :=
  (preorder_isInfix hlevel).subset (mem_preorder_of_mem_children hchild)

namespace LaysOut

variable {layout : Layout} {spec : LevelSpec} {level : Level}

theorem preorderAll_root (layout : Layout) : preorderAll [layout.root] = layout.levels :=
  preorderAll_singleton _

/-- The levels of a layout are those of the forest that its root is. -/
theorem mem_preorderAll_root : level ∈ preorderAll [layout.root] ↔ level ∈ layout.levels := by
  rw [preorderAll_root]

theorem isSound_root : (⟨none, 0, 0⟩ : Spot).IsSound := nofun

section

variable (h : LaysOut ⟨none, 0, 0⟩ [(.root, spec)] [layout.root])

include h

/-- **Levels are numbered in preorder.** -/
theorem map_index_levels : layout.levels.map Level.index = List.range layout.levels.length := by
  rw [← preorderAll_root, h.map_index, List.range_eq_range']

/-- The index of a level is its position. -/
theorem index_getElem {i : Nat} (hi : i < layout.levels.length) : layout.levels[i].index = i := by
  have hmap := List.getElem_of_eq h.map_index_levels (by simpa using hi : i < _)
  simpa using hmap

/-- **A level stands at its index.** -/
theorem getElem?_index (hlevel : level ∈ layout.levels) :
    layout.levels[level.index]? = some level := by
  obtain ⟨i, hi, rfl⟩ := List.getElem_of_mem hlevel
  rw [h.index_getElem hi, List.getElem?_eq_getElem hi]

theorem index_lt (hlevel : level ∈ layout.levels) : level.index < layout.levels.length := by
  rw [← preorderAll_root] at hlevel ⊢
  simpa using (h.index_bounds hlevel).2

/-- **A subtree is a range of indices**, from its level on. -/
theorem map_index_subtree (hlevel : level ∈ layout.levels) :
    level.preorder.map Level.index = List.range' level.index level.preorder.length :=
  h.map_index_preorder level (mem_preorderAll_root.2 hlevel)

/-- **The levels of a subtree** are those with the indices of its stretch. -/
theorem mem_preorder_iff_index (hlevel : level ∈ layout.levels) {other : Level}
    (hother : other ∈ layout.levels) : other ∈ level.preorder ↔
      level.index ≤ other.index ∧ other.index < level.index + level.preorder.length := by
  rw [← List.mem_range'_1, ← h.map_index_subtree hlevel]
  refine ⟨List.mem_map_of_mem, fun hindex => ?_⟩
  obtain ⟨another, hanother, heq⟩ := List.mem_map.1 hindex
  -- A level is told by its index, so the one that is found is the one that was looked for.
  have hsome := h.getElem?_index ((preorder_isInfix hlevel).subset hanother)
  rw [heq, h.getElem?_index hother] at hsome
  exact Option.some.inj hsome ▸ hanother

/-- The stretch of a subtree holds its levels. -/
theorem take_drop_levels (hlevel : level ∈ layout.levels) :
    (layout.levels.drop level.index).take level.preorder.length = level.preorder := by
  obtain ⟨before, after, hlevels⟩ := preorder_isInfix hlevel
  have hindex : level.index = before.length := by
    obtain ⟨info, children⟩ := level
    have hat : layout.levels[before.length]? = some (.mk info children) := by
      rw [Layout.levels, ← hlevels]
      simp [preorder]
    obtain ⟨hlt, heq⟩ := List.getElem?_eq_some_iff.1 hat
    rw [← h.index_getElem hlt, heq]
  rw [hindex, Layout.levels, ← hlevels, List.append_assoc, List.drop_left, List.take_left]

/-- The levels that have a level as their parent are its children, in order. -/
theorem levelsUnder_levels (hlevel : level ∈ layout.levels) :
    levelsUnder (some level.index) layout.levels = level.children := by
  have hunder := h.levelsUnder_index isSound_root
  rw [preorderAll_root] at hunder
  exact hunder level hlevel

/-- The children of a level are the levels that have it for their parent. -/
theorem mem_children_iff (hlevel : level ∈ layout.levels) {other : Level} :
    other ∈ level.children ↔
      other ∈ layout.levels ∧ other.info.parent = some level.index := by
  rw [← h.levelsUnder_levels hlevel, levelsUnder, List.mem_filter, decide_eq_true_iff]

/-- Children of levels lie behind them and one deeper. -/
theorem children_levels (hlevel : level ∈ layout.levels) {child : Level}
    (hchild : child ∈ level.children) :
    level.index < child.index ∧ child.info.depth = level.info.depth + 1 :=
  h.children level (mem_preorderAll_root.2 hlevel) child hchild

/-- A parent is a level in front of its children. -/
theorem exists_parent (hlevel : level ∈ layout.levels) {q : Nat}
    (hparent : level.info.parent = some q) :
    q < level.index ∧ ∃ other ∈ layout.levels, other.index = q := by
  have hlt : q < level.index := by
    rcases h.parent level (mem_preorderAll_root.2 hlevel) with hnone | ⟨q', hq', -, hlt⟩
    · cases hparent.symm.trans hnone
    · cases hparent.symm.trans hq'
      exact hlt
  have hq : q < layout.levels.length := Nat.lt_trans hlt (h.index_lt hlevel)
  exact ⟨hlt, layout.levels[q], List.getElem_mem hq, h.index_getElem hq⟩

/-- A path is followed from a level to its parent. -/
theorem namesUpward_succ (hlevel : level ∈ layout.levels) (bound : Nat) :
    layout.namesUpward (bound + 1) level.index = level.info.role.name?.toList ++
      level.info.parent.elim [] (layout.namesUpward bound) := by
  rw [Layout.namesUpward, h.getElem?_index hlevel]

/-- **The way up from a level ends**: any bound beyond its index will do. -/
theorem namesUpward_eq (hlevel : level ∈ layout.levels) {bound bound' : Nat}
    (hbound : level.index < bound) (hbound' : level.index < bound') :
    layout.namesUpward bound level.index = layout.namesUpward bound' level.index := by
  induction bound generalizing level bound' with
  | zero => exact absurd hbound (Nat.not_lt_zero _)
  | succ bound ih =>
    obtain ⟨bound', rfl⟩ := Nat.exists_eq_add_of_lt hbound'
    rw [h.namesUpward_succ hlevel, h.namesUpward_succ hlevel]
    cases hparent : level.info.parent with
    | none => rfl
    | some q =>
      obtain ⟨hq, other, hother, rfl⟩ := h.exists_parent hlevel hparent
      exact congrArg _ (ih hother (by omega) (by omega))

/-- A level is reached from its parent. -/
theorem navigationPath_eq (hlevel : level ∈ layout.levels) :
    layout.navigationPath level.index =
      level.info.parent.elim [] layout.navigationPath ++ level.info.role.name?.toList := by
  have hlt := h.index_lt hlevel
  have hnames : level.info.role.name?.toList.reverse = level.info.role.name?.toList := by
    cases level.info.role.name? <;> rfl
  obtain ⟨bound, hbound⟩ := Nat.exists_eq_add_of_lt hlt
  rw [Layout.navigationPath, hbound, h.namesUpward_succ hlevel, List.reverse_append, hnames]
  cases hparent : level.info.parent with
  | none => rfl
  | some q =>
    obtain ⟨hq, other, hother, rfl⟩ := h.exists_parent hlevel hparent
    have hnames := h.namesUpward_eq hother (Nat.lt_of_lt_of_le hq (Nat.le_add_right _ bound))
      (h.index_lt hother)
    exact congrArg (·.reverse ++ _) hnames

/-- **The levels of a layout are those of its description.** -/
theorem map_siteOf_levels : layout.levels.map layout.siteOf = spec.outline := by
  rw [← preorderAll_root]
  exact (h.map_siteOf rfl fun level hlevel =>
    h.navigationPath_eq (mem_preorderAll_root.1 hlevel)).trans (List.append_nil _)

/-! ## Columns of layouts -/

theorem columns_levels (hlevel : level ∈ layout.levels) :
    level.info.columns = columnSet (layout.siteOf level).columns :=
  h.columns_eq level (mem_preorderAll_root.2 hlevel)

theorem pairwise_lt_columns (hlevel : level ∈ layout.levels) :
    level.info.columns.Pairwise (· < ·) := by
  rw [h.columns_levels hlevel]
  exact pairwise_columnSet _

/-- Levels of a sound description share no columns. -/
theorem pairwise_disjoint (hsound : Site.AreSound spec.outline) :
    layout.levels.Pairwise fun a b => a.info.columns.Disjoint b.info.columns := by
  have hapart := hsound.apart
  rw [← h.map_siteOf_levels, List.pairwise_map] at hapart
  refine hapart.imp_of_mem fun ha hb hdisjoint c hc hc' => ?_
  rw [h.columns_levels ha, mem_columnSet] at hc
  rw [h.columns_levels hb, mem_columnSet] at hc'
  exact hdisjoint hc hc'

/-- **The columns of a subtree are those of its levels**, each as often as it is there. -/
theorem perm_subtree (hlevel : level ∈ layout.levels) :
    level.info.subtreeColumns.Perm (level.preorder.flatMap fun other => other.info.columns) :=
  h.perm_preorder level (mem_preorderAll_root.2 hlevel)

/-- **The columns of a subtree increase**: they are in order, and no two of its levels share one. -/
theorem pairwise_lt_subtree (hsound : Site.AreSound spec.outline) (hlevel : level ∈ layout.levels) :
    level.info.subtreeColumns.Pairwise (· < ·) := by
  have hsublist : level.preorder.Sublist layout.levels := (preorder_isInfix hlevel).sublist
  have hnodup : (level.preorder.flatMap fun other => other.info.columns).Nodup := by
    refine List.nodup_flatMap.2 ⟨fun other hother => ?_,
      (h.pairwise_disjoint hsound).sublist hsublist⟩
    exact (h.pairwise_lt_columns (hsublist.subset hother)).imp Nat.ne_of_lt
  have hle : level.info.subtreeColumns.Pairwise (· ≤ ·) :=
    h.pairwise_subtreeColumns level (mem_preorderAll_root.2 hlevel)
  exact hle.imp₂ (fun _ _ => Nat.lt_of_le_of_ne) ((h.perm_subtree hlevel).nodup_iff.2 hnodup)

end

end LaysOut

end QueryPlans
