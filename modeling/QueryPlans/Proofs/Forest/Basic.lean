import Mathlib.Data.List.Chain
import QueryPlans.Proofs.Layout.Cells

/-!
# Proofs/Forest/Basic — trees of entities, and the rows they are flattened to

An entity gives values to the columns of its level and has entities under each navigation.  A row
shows one path of the tree: `flatten` completes the rows of the navigations with the entity's own
columns, and an entity without rows below it has one row of its own.  What one navigation shows is
blank on the rows of the others, since no column has two owners.
-/

namespace QueryPlans

/-! ## Entities -/

/-- What an entity gives the columns, and the entities of each of its navigations. -/
inductive Entity where
  | mk (value : Cells) (branches : List (List Entity))

namespace Entity

/-- The values of an entity, by columns. -/
def value : Entity → Cells
  | mk value _ => value

/-- The entities of each navigation, in the order of the child levels. -/
def branches : Entity → List (List Entity)
  | mk _ branches => branches

end Entity

/-! ## Conforming trees -/

/-- A rule for the entities of one navigation. -/
abbrev SiblingRule : Type := LevelInfo → List Entity → Prop

/-- Entities that follow one another are different entities. -/
def AdjacentDiffer : SiblingRule := fun info es =>
  es.IsChain fun a b => info.isSame a.value b.value = false

/-- Entities with a key are different entities. -/
def KeyedDiffer : SiblingRule := fun info es =>
  es.Pairwise fun a b => info.isKeyedIn a.value = true → info.isKeyedIn b.value = true →
    info.isSame a.value b.value = false

mutual

/-- **An entity that conforms to its level**: it is present, and so are the entities below it; a
single-valued navigation has one at most, and the siblings obey a rule. -/
def Level.Conforms (rule : SiblingRule) : Level → Entity → Prop
  | .mk info children, .mk value branches =>
    info.isPresentIn value = true ∧ BranchesConform rule children branches

/-- Entities that conform, navigation by navigation. -/
def BranchesConform (rule : SiblingRule) : List Level → List (List Entity) → Prop
  | [], [] => True
  | child :: rest, es :: more =>
    (child.info.role.isSingle = true → es.length ≤ 1) ∧ rule child.info es ∧
      (∀ e ∈ es, child.Conforms rule e) ∧ BranchesConform rule rest more
  | _, _ => False

end

section

variable {rule : SiblingRule} [∀ info es, Decidable (rule info es)]

mutual

/-- Conformity is decided down the levels, as it is defined. -/
def Level.decideConforms : (level : Level) → (e : Entity) → Decidable (level.Conforms rule e)
  | .mk info children, .mk value branches =>
    @instDecidableAnd (info.isPresentIn value = true) (BranchesConform rule children branches) _
      (decideBranchesConform children branches)

/-- The part of the decision that walks child levels and branches together. -/
def decideBranchesConform : (children : List Level) → (branches : List (List Entity)) →
    Decidable (BranchesConform rule children branches)
  | [], [] => .isTrue trivial
  | child :: rest, es :: more =>
    have : DecidablePred (child.Conforms rule) := child.decideConforms
    have : Decidable (BranchesConform rule rest more) := decideBranchesConform rest more
    inferInstanceAs (Decidable ((child.info.role.isSingle = true → es.length ≤ 1) ∧
      rule child.info es ∧ (∀ e ∈ es, child.Conforms rule e) ∧ BranchesConform rule rest more))
  | [], _ :: _ => .isFalse id
  | _ :: _, [] => .isFalse id

end

instance (level : Level) (e : Entity) : Decidable (level.Conforms rule e) := level.decideConforms e

end

instance (info : LevelInfo) (es : List Entity) : Decidable (AdjacentDiffer info es) :=
  inferInstanceAs (Decidable (List.IsChain _ _))

instance (info : LevelInfo) (es : List Entity) : Decidable (KeyedDiffer info es) :=
  inferInstanceAs (Decidable (List.Pairwise _ _))

/-- Root entities that conform. -/
structure Layout.Conforms (layout : Layout) (rule : SiblingRule) (forest : List Entity) : Prop where
  roots : AdjacentDiffer layout.root.info forest
  entities : ∀ e ∈ forest, layout.root.Conforms rule e

/-! ## Flattening -/

mutual

/-- **The rows of an entity**: those of its navigations in order, completed with its own columns. -/
def Level.flatten : Level → Entity → List Cells
  | .mk info children, .mk value branches =>
    let below := flattenBranches children branches
    (if below.isEmpty then [Cells.blank] else below).map (Cells.overwrite info.columns value)

/-- The rows of entities, navigation by navigation. -/
def flattenBranches : List Level → List (List Entity) → List Cells
  | child :: rest, es :: more => es.flatMap child.flatten ++ flattenBranches rest more
  | _, _ => []

end

/-- **The rows of a forest.** -/
def Layout.flatten (layout : Layout) (forest : List Entity) : List Row :=
  (forest.flatMap layout.root.flatten).map (Row.ofCells layout.width)

namespace Level

variable {info : LevelInfo} {children : List Level} {level : Level} {e : Entity} {cells : Cells}

/-- The rows below an entity, after blank rows that keep its own from being lost. -/
theorem flatten_eq (info : LevelInfo) (children : List Level) (value : Cells)
    (branches : List (List Entity)) :
    ∃ lead, (∀ cells ∈ lead, cells = Cells.blank) ∧
      (Level.mk info children).flatten (.mk value branches) =
        (lead ++ flattenBranches children branches).map (Cells.overwrite info.columns value) := by
  rw [Level.flatten]
  by_cases hbelow : flattenBranches children branches = []
  · refine ⟨[Cells.blank], by simp, ?_⟩
    rw [hbelow]
    rfl
  · refine ⟨[], by simp, ?_⟩
    rw [if_neg (by simpa using hbelow), List.nil_append]

theorem flatten_ne_nil (level : Level) (e : Entity) : level.flatten e ≠ [] := by
  obtain ⟨info, children⟩ := level
  obtain ⟨value, branches⟩ := e
  rw [Level.flatten, Ne, List.map_eq_nil_iff]
  split_ifs with hbelow
  · exact not_false
  · simpa using hbelow

/-- Every row of an entity shows the entity. -/
theorem agreeOn_of_mem_flatten (h : cells ∈ level.flatten e) :
    Cells.AgreeOn level.info.columns cells e.value := by
  obtain ⟨info, children⟩ := level
  obtain ⟨value, branches⟩ := e
  rw [Level.flatten] at h
  obtain ⟨below, -, rfl⟩ := List.mem_map.1 h
  exact Cells.agreeOn_overwrite

/-- Rows below an entity are blank outside of the levels below it. -/
theorem blank_of_mem_flattenBranches
    (ih : ∀ child ∈ children, ∀ e cells, cells ∈ child.flatten e →
      ∀ c, c ∉ child.info.subtreeColumns → cells c = .null)
    {branches : List (List Entity)} (h : cells ∈ flattenBranches children branches) {c : Nat}
    (hc : ∀ child ∈ children, c ∉ child.info.subtreeColumns) : cells c = .null := by
  induction children generalizing branches with
  | nil => simp [flattenBranches] at h
  | cons child rest ihrest =>
    rw [List.forall_mem_cons] at ih hc
    cases branches with
    | nil => simp [flattenBranches] at h
    | cons es more =>
      rw [flattenBranches, List.mem_append] at h
      rcases h with h | h
      · obtain ⟨e, -, he⟩ := List.mem_flatMap.1 h
        exact ih.1 e cells he c hc.1
      · exact ihrest ih.2 h hc.2

/-- **A row of an entity is blank outside of its subtree.** -/
theorem blank_of_mem_flatten (hwf : level.WellFormed) :
    ∀ e cells, cells ∈ level.flatten e → ∀ c, c ∉ level.info.subtreeColumns → cells c = .null := by
  induction level with
  | mk info children ih =>
    obtain ⟨owns, below⟩ := hwf
    intro e cells h c hc
    obtain ⟨value, branches⟩ := e
    obtain ⟨lead, hlead, heq⟩ := flatten_eq info children value branches
    rw [heq] at h
    obtain ⟨inner, hinner, rfl⟩ := List.mem_map.1 h
    have hown : c ∉ info.columns := fun hmem => hc (owns.subtree_of_mem hmem)
    rw [Cells.overwrite_of_not_mem hown]
    rcases List.mem_append.1 hinner with hinner | hinner
    · rw [hlead inner hinner]
      rfl
    · refine blank_of_mem_flattenBranches (fun child hchild => ih child hchild (below child hchild))
        hinner fun child hchild hmem => hc (owns.subtree_of_child hchild hmem)

/-! ## Rows that show a level -/

/-- **Rows that show a level** and all below it. -/
def Shown (level : Level) (rowOf : Cells → Row) : Prop :=
  ∀ cells, (rowOf cells).Shows level.info.subtreeColumns cells

/-- The first row of an entity. -/
def headRow (level : Level) (rowOf : Cells → Row) (e : Entity) : Row :=
  rowOf ((level.flatten e).head (level.flatten_ne_nil e))

theorem map_flatten (level : Level) (rowOf : Cells → Row) (e : Entity) :
    (level.flatten e).map rowOf = level.headRow rowOf e :: (level.flatten e).tail.map rowOf :=
  congrArg (List.map rowOf) (List.cons_head_tail (level.flatten_ne_nil e)).symm

namespace Shown

variable {rowOf : Cells → Row}

/-- Every row of an entity shows its values. -/
theorem of_mem_flatten (hshown : level.Shown rowOf) (hwf : level.WellFormed)
    (h : cells ∈ level.flatten e) : (rowOf cells).Shows level.info.columns e.value :=
  ((hshown cells).mono fun _ hc => hwf.owns.subtree_of_mem hc).congr (agreeOn_of_mem_flatten h)

theorem headRow (hshown : level.Shown rowOf) (hwf : level.WellFormed) :
    (level.headRow rowOf e).Shows level.info.columns e.value :=
  hshown.of_mem_flatten hwf (List.head_mem _)

/-- What completes the rows below an entity hides nothing of the levels below. -/
theorem below (hshown : (Level.mk info children).Shown rowOf) (owns : Owns info children)
    {child : Level} (hchild : child ∈ children) (value : Cells) :
    child.Shown (rowOf ∘ Cells.overwrite info.columns value) := by
  intro cells
  refine ((hshown _).mono fun c hc => owns.subtree_of_child hchild hc).congr fun c hc => ?_
  exact Cells.overwrite_of_not_mem fun hown => owns.disjoint_below child hchild hown hc

theorem isSubtreePresent_blank (hshown : level.Shown rowOf)
    (hblank : ∀ c ∈ level.info.subtreeColumns, cells c = .null) :
    level.info.isSubtreePresent (rowOf cells) = .ok false := by
  have hcells : (rowOf cells).Shows level.info.subtreeColumns Cells.blank :=
    (hshown cells).congr hblank
  rw [LevelInfo.isSubtreePresent, hcells.anyPresent_eq, Cells.anyPresent_blank]

/-- A row that has nothing of a subtree does not show its level. -/
theorem isPresent_blank (hshown : level.Shown rowOf) (hwf : level.WellFormed)
    (hblank : ∀ c ∈ level.info.subtreeColumns, cells c = .null) :
    level.info.isPresent (rowOf cells) = .ok false := by
  have hcells : (rowOf cells).Shows level.info.columns Cells.blank :=
    ((hshown cells).congr hblank).mono fun c hc => hwf.owns.subtree_of_mem hc
  rw [hcells.isPresent_eq, LevelInfo.isPresentIn, Cells.anyPresent_blank]

/-- The rows of an entity show its level, and so its subtree. -/
theorem isSubtreePresent_of_mem (hshown : level.Shown rowOf) (hwf : level.WellFormed)
    (hpresent : level.info.isPresentIn e.value = true) (h : cells ∈ level.flatten e) :
    level.info.isSubtreePresent (rowOf cells) = .ok true := by
  obtain ⟨c, hc, hvalue⟩ := List.any_eq_true.1 hpresent
  have hany : Cells.anyPresent level.info.subtreeColumns cells = true := by
    refine List.any_eq_true.2 ⟨c, hwf.owns.subtree_of_mem hc, ?_⟩
    rw [agreeOn_of_mem_flatten h c hc]
    exact hvalue
  rw [LevelInfo.isSubtreePresent, (hshown cells).anyPresent_eq, hany]

theorem isPresent_of_mem (hshown : level.Shown rowOf) (hwf : level.WellFormed)
    (hpresent : level.info.isPresentIn e.value = true) (h : cells ∈ level.flatten e) :
    level.info.isPresent (rowOf cells) = .ok true := by
  rw [(hshown.of_mem_flatten hwf h).isPresent_eq, hpresent]

/-- All rows of an entity carry the entity of its first row. -/
theorem sameEntity_of_mem (hshown : level.Shown rowOf) (hwf : level.WellFormed)
    (h : cells ∈ level.flatten e) :
    level.info.sameEntity (level.headRow rowOf e) (rowOf cells) = .ok true := by
  rw [hwf.owns.sameEntity_eq (hshown.headRow hwf) (hshown.of_mem_flatten hwf h),
    LevelInfo.isSame_self]

end Shown

theorem Conforms.isPresentIn {rule : SiblingRule} (h : level.Conforms rule e) :
    level.info.isPresentIn e.value = true := by
  obtain ⟨info, children⟩ := level
  obtain ⟨value, branches⟩ := e
  exact h.1

end Level

/-- The rows of a forest show every level of the layout. -/
theorem LevelSpec.shown_of_layout {spec : LevelSpec} {layout : Layout}
    (h : spec.layout = .ok layout) : layout.root.Shown (Row.ofCells layout.width) := fun cells =>
  Row.shows_ofCells (fun _ hc => spec.lt_width_of_layout h hc) cells

/-! ## A forest -/

/-- Travellers and their trips, each with a number. -/
def LevelSpec.travellers : LevelSpec :=
  (LevelSpec.empty.key "Id" 0).navigation "Trips" .collection (LevelSpec.empty.key "Trip" 1)

/-- Travellers by `Id`, each with its trips in order. -/
def Layout.travellers : Layout where
  root := .mk ⟨0, .root, [⟨"Id", 0⟩], [0], [0], [0, 1], none, 0⟩
    [.mk ⟨1, .navigation "Trips" .collection, [⟨"Trip", 1⟩], [1], [1], [1], some 0, 1⟩ []]
  continuation := []
  width := 2

/-- A traveller with trips. -/
def Entity.traveller (id : Int64) (trips : List Int64) : Entity :=
  .mk (fun _ => .int id) [trips.map fun trip => .mk (fun _ => .int trip) []]

end QueryPlans
