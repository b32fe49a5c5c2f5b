import QueryPlans.Proofs.Forest.Growth
import QueryPlans.Proofs.Ownership.Holding

/-!
# Proofs/Ownership/Gathering — which rows the entities of the event reader are

Rows in the union layout have values below one navigation of each level at most.  Over such rows the
tree that grows row by row is again one of entities that own rows (`Level.growAll_eq`).  The reader
does not look at rows without values below a navigation: its entities there are the blocks of the
rows that are left when all others are dropped.
-/

namespace QueryPlans

variable {α : Type}

/-! ## The union layout -/

/-- Cells with values below one navigation of a level at most. -/
def Level.Unites (row : Cells) (level : Level) : Prop :=
  level.children.Pairwise fun a b =>
    a.info.isSubtreePresentIn row = true → b.info.isSubtreePresentIn row = false

/-- **A row in the union layout**: at every level it has values below one navigation at most. -/
def Layout.IsUnited (layout : Layout) (row : Row) : Prop :=
  ∀ level ∈ layout.levels, level.Unites row.toCells

instance (row : Cells) (level : Level) : Decidable (level.Unites row) :=
  inferInstanceAs (Decidable (List.Pairwise _ _))

instance (layout : Layout) (row : Row) : Decidable (layout.IsUnited row) :=
  inferInstanceAs (Decidable (∀ level ∈ layout.levels, level.Unites row.toCells))

/-! ## Gathered rows -/

namespace LevelInfo

/-- **The blocks of the rows with values at a level or below it**, as if there were no others. -/
def gathered (level : LevelInfo) (cells : α → Cells) (as : List α) : List (List α) :=
  level.blocks cells (as.filter fun a => level.isSubtreePresentIn (cells a))

end LevelInfo

/-- **The entity that the event reader makes of rows.** -/
def Level.gather (cells : α → Cells) (level : Level) (as : List α) : Entity :=
  (level.hold (fun info => info.gathered cells) as).entity cells

/-- The entities of each navigation that the event reader makes of rows. -/
def gatherBranches (cells : α → Cells) (children : List Level) (as : List α) :
    List (List Entity) :=
  children.map fun child => (child.info.gathered cells as).map (child.gather cells)

section

variable {cells : α → Cells} {level child : Level} {children : List Level} {as block : List α}
  {a : α}

/-- **A gathered entity**, by its first row and what is gathered below it. -/
theorem Level.gather_eq (cells : α → Cells) (info : LevelInfo) (children : List Level)
    (as : List α) : (Level.mk info children).gather cells as =
      .mk (Holding.headCells cells as) (gatherBranches cells children as) :=
  entity_hold _ as cells info children

/-- A row without values at a level or below it is not gathered. -/
theorem LevelInfo.gathered_concat_of_blank {info : LevelInfo}
    (hblank : info.isSubtreePresentIn (cells a) = false) :
    info.gathered cells (as ++ [a]) = info.gathered cells as := by
  simp [gathered, hblank]

/-! ## One more row -/

/-- What one more row does to the entity of rows. -/
structure Level.GathersOn (cells : α → Cells) (a : α) (level : Level) : Prop where
  first : level.gather cells [a] = level.start (cells a)
  next : ∀ ⦃block⦄, block ≠ [] →
    level.gather cells (block ++ [a]) = level.extend (cells a) (level.gather cells block)

/-- **One more row of a level** joins its last block or begins another, as it does in the tree. -/
theorem Level.GathersOn.blocks_concat (h : level.GathersOn cells a) (as : List α) :
    (level.info.blocks cells (as ++ [a])).map (level.gather cells) =
      level.grow (cells a) ((level.info.blocks cells as).map (level.gather cells)) := by
  rw [LevelInfo.blocks, splitBy_concat, ← LevelInfo.blocks]
  rcases List.eq_nil_or_concat (level.info.blocks cells as) with hnil | ⟨before, block, hlast⟩
  · rw [hnil, List.map_nil, grow, growLast_nil, growLast_nil, List.map_singleton, h.first]
  · rw [List.concat_eq_append] at hlast
    have hmem : block ∈ level.info.blocks cells as := by simp [hlast]
    have hne : block ≠ [] := List.ne_nil_of_mem_splitBy hmem
    -- The reader compares a row with the first of the open block, which is as good as its last.
    have hequiv := level.info.isEquivalence_cells cells
    have hrelated : level.info.isSame (cells (block.getLast hne)) (cells (block.head hne)) = true :=
      hequiv.of_mem_splitBy hmem _ (List.getLast_mem hne) _ (List.head_mem hne)
    have hvalue : (level.gather cells block).value = cells (block.head hne) := by
      rw [gather, Holding.value_entity, rows_hold, Holding.headCells,
        List.head?_eq_some_head hne, Option.elim_some]
    rw [hlast, List.map_append, List.map_singleton, grow, growLast_concat, growLast_concat, hvalue,
      List.getLast?_eq_some_getLast hne, Option.any_some,
      level.info.isEquivalence_isSame.congr hrelated]
    split
    · rw [List.map_append, List.map_singleton, h.next hne]
    · rw [List.map_append, List.map_append, List.map_singleton, List.map_singleton, h.first]

/-- One more row changes the navigation that it has values below. -/
theorem gatherBranches_concat (hgathers : ∀ child ∈ children, child.GathersOn cells a)
    (hunites : children.Pairwise fun x y => x.info.isSubtreePresentIn (cells a) = true →
      y.info.isSubtreePresentIn (cells a) = false) (as : List α) :
    gatherBranches cells children (as ++ [a]) =
      extendAmong (cells a) children (gatherBranches cells children as) := by
  induction children with
  | nil => rfl
  | cons child rest ih =>
    rw [List.forall_mem_cons] at hgathers
    rw [List.pairwise_cons] at hunites
    simp only [gatherBranches, List.map_cons] at ih ⊢
    rw [extendAmong]
    -- The row is united: what shows the first child shows none of the others.
    cases hpresent : child.info.isSubtreePresentIn (cells a) with
    | false =>
      rw [ih hgathers.2 hunites.2, LevelInfo.gathered_concat_of_blank hpresent]
      rfl
    | true =>
      have hothers : rest.map (fun other =>
          (other.info.gathered cells (as ++ [a])).map (other.gather cells)) =
            rest.map fun other => (other.info.gathered cells as).map (other.gather cells) :=
        List.map_congr_left fun other hother => by
          rw [LevelInfo.gathered_concat_of_blank (hunites.1 other hother hpresent)]
      have hchild := hgathers.1.blocks_concat
        (as.filter fun a => child.info.isSubtreePresentIn (cells a))
      rw [if_pos rfl, hothers, LevelInfo.gathered, List.filter_append,
        List.filter_singleton, hpresent]
      exact congrArg (· :: _) hchild

theorem gatherBranches_nil (cells : α → Cells) (children : List Level) :
    gatherBranches cells children [] = children.map fun _ => [] :=
  List.map_congr_left fun _ _ => rfl

/-- **One more row in the union layout.** -/
theorem Level.gathersOn (level : Level)
    (hunites : ∀ other ∈ level.preorder, other.Unites (cells a)) : level.GathersOn cells a := by
  induction level with
  | mk info children ih =>
    rw [preorder, List.forall_mem_cons] at hunites
    have hbelow : ∀ child ∈ children, child.GathersOn cells a := fun child hchild =>
      ih child hchild fun other hother =>
        hunites.2 other (mem_preorderAll.2 ⟨child, hchild, hother⟩)
    have hbranches := gatherBranches_concat hbelow hunites.1
    refine ⟨?_, fun block hne => ?_⟩
    · have hfirst := hbranches []
      rw [List.nil_append, gatherBranches_nil] at hfirst
      rw [gather_eq, hfirst]
      rfl
    · have hhead : Holding.headCells cells (block ++ [a]) = Holding.headCells cells block := by
        rw [Holding.headCells, Holding.headCells, List.head?_append_of_ne_nil _ hne]
      rw [gather_eq, gather_eq, hbranches, hhead]
      rfl

/-- **The tree that rows in the union layout grow** is that of their blocks. -/
theorem Level.growAll_eq (level : Level)
    (hunites : ∀ a ∈ as, ∀ other ∈ level.preorder, other.Unites (cells a)) :
    level.growAll [] (as.map cells) = (level.info.blocks cells as).map (level.gather cells) := by
  induction as using List.reverseRecOn with
  | nil => rfl
  | append_singleton as a ih =>
    rw [List.forall_mem_append, List.forall_mem_singleton] at hunites
    rw [(level.gathersOn hunites.2).blocks_concat, ← ih hunites.1, growAll, List.map_append,
      List.foldl_append]
    rfl

end

end QueryPlans
