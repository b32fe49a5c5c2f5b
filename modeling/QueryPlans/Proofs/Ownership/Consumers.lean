import QueryPlans.Proofs.EventTrace
import QueryPlans.Proofs.Forest.Grammar
import QueryPlans.Proofs.Forest.ReadBack
import QueryPlans.Proofs.Ownership.Gathering

/-!
# Proofs/Ownership/Consumers — both consumers on the same rows

The materializer ends an entity at a row that does not show its level; the event reader does not.
So its entities are the materializer's, or several of these joined, and both consumers make the
same entries of the same rows exactly when no entity of a navigation is followed by the same entity
once more (`entries_agree_iff`).  Rows of one entity with a gap between them, which has nothing of
its level, are where they differ (`consumers_disagree`).
-/

namespace QueryPlans

variable {α : Type}

/-! ## Entities of the materializer -/

/-- **The entity that the materializer makes of rows.** -/
def Level.assemble (cells : α → Cells) (level : Level) (as : List α) : Entity :=
  (level.hold (fun info => info.runs cells) as).entity cells

/-- The forest that the materializer makes of rows. -/
def Layout.assembled (layout : Layout) (rows : List Row) : List Entity :=
  (layout.root.info.runs Row.toCells rows).map (layout.root.assemble Row.toCells)

/-! ## Branches given level by level -/

section

variable {rule : SiblingRule} {children : List Level} {f : Level → List Entity}

/-- Branches given level by level make the branch of each navigation. -/
theorem branchEntries_map : branchEntries children (children.map f) =
    children.map fun child => (child.label,
      if child.info.role.isSingle then Branch.single ((f child).map child.entry).head?
      else .collection ((f child).map child.entry)) := by
  induction children with
  | nil => rw [branchEntries.eq_def]; rfl
  | cons child rest ih => rw [List.map_cons, branchEntries, ih, List.map_cons]

/-- They conform if each level does to its own. -/
theorem branchesConform_map : BranchesConform rule children (children.map f) ↔
    ∀ child ∈ children, (child.info.role.isSingle = true → (f child).length ≤ 1) ∧
      rule child.info (f child) ∧ ∀ e ∈ f child, child.Conforms rule e := by
  induction children with
  | nil => simp [BranchesConform]
  | cons child rest ih =>
    rw [List.map_cons, BranchesConform, ih, List.forall_mem_cons]
    simp only [and_assoc]

end

/-! ## One navigation -/

section

variable {cells : α → Cells} {level child : Level} {children : List Level} {as : List α}
  {parts : List (List α)}

theorem LevelInfo.Shares.areRelated {info : LevelInfo} (h : info.Shares cells as parts) :
    AreRelated (fun a b => info.isSame (cells a) (cells b)) parts := ⟨h.ne_nil, h.same_of_mem⟩

/-- Neighbouring entities differ exactly if the first rows of neighbouring parts do. -/
theorem adjacentDiffer_assemble_iff (hne : ∀ part ∈ parts, part ≠ []) :
    AdjacentDiffer level.info (parts.map (level.assemble cells)) ↔
      HeadsDiffer (fun a b => level.info.isSame (cells a) (cells b)) parts := by
  rw [AdjacentDiffer, List.isChain_map]
  refine List.IsChain.iff_of_mem_imp fun p q hp hq => ?_
  simp [Level.assemble, Holding.headCells, List.head?_eq_some_head, hne p hp, hne q hq]

/-- What the reader gathers are the blocks of the rows that the materializer's runs make up. -/
theorem gathered_eq_splitBy {hs : List (Holding α)} (owns : Level.Owns child.info children)
    (h : child.info.Divides cells as hs) (hrows : hs.map Holding.rows = parts) :
    child.info.gathered cells as =
      parts.flatten.splitBy fun a b => child.info.isSame (cells a) (cells b) := by
  subst hrows
  rw [LevelInfo.gathered, LevelInfo.blocks, h.shares.flatten_eq]
  congr 1
  exact List.filter_congr fun a ha =>
    Bool.eq_iff_iff.2 ⟨h.nested a ha, owns.isSubtreePresentIn_of_isPresentIn⟩

/-- What comparing the entries of a navigation comes to for one entity. -/
def Level.Compares (cells : α → Cells) (level : Level) (as : List α) : Prop :=
  level.entry (level.gather cells as) = level.entry (level.assemble cells as) ↔
    level.Conforms AdjacentDiffer (level.assemble cells as)

/-- **The entities of a navigation have the same entries** when no two neighbours are the same, and
those of each run have. -/
theorem map_entry_eq_iff (hgathered : child.info.gathered cells as =
      parts.flatten.splitBy fun a b => child.info.isSame (cells a) (cells b))
    (hrelated : AreRelated (fun a b => child.info.isSame (cells a) (cells b)) parts)
    (hcompares : ∀ part ∈ parts, child.Compares cells part) :
    ((child.info.gathered cells as).map (child.gather cells)).map child.entry =
        (parts.map (child.assemble cells)).map child.entry ↔
      AdjacentDiffer child.info (parts.map (child.assemble cells)) ∧
        ∀ e ∈ parts.map (child.assemble cells), child.Conforms AdjacentDiffer e := by
  have hparts := splitBy_flatten_eq_iff (child.info.isEquivalence_cells cells) hrelated
  rw [adjacentDiffer_assemble_iff hrelated.ne_nil, ← hparts, ← hgathered, List.forall_mem_map]
  constructor
  · intro heq
    have hlength : (child.info.gathered cells as).length = parts.length := by
      simpa using congrArg List.length heq
    rw [hgathered] at hlength
    have hsame := hgathered.trans ((length_splitBy_flatten_le hrelated).2 hlength)
    rw [hsame, List.map_map, List.map_map, List.map_inj_left] at heq
    exact ⟨hsame, fun part hpart => (hcompares part hpart).1 (heq part hpart)⟩
  · rintro ⟨hsame, hconforms⟩
    rw [hsame, List.map_map, List.map_map, List.map_inj_left]
    exact fun part hpart => (hcompares part hpart).2 (hconforms part hpart)

/-- A single-valued navigation has nothing to join. -/
theorem length_gathered_le (hgathered : child.info.gathered cells as =
      parts.flatten.splitBy fun a b => child.info.isSame (cells a) (cells b))
    (hrelated : AreRelated (fun a b => child.info.isSame (cells a) (cells b)) parts)
    (hsingle : parts.length ≤ 1) : (child.info.gathered cells as).length ≤ 1 := by
  rw [hgathered]
  exact (length_splitBy_flatten_le hrelated).1.trans hsingle

/-- Lists of one element at most are told apart by their heads. -/
theorem head?_eq_head?_iff {β : Type} {xs ys : List β} (hxs : xs.length ≤ 1) (hys : ys.length ≤ 1) :
    xs.head? = ys.head? ↔ xs = ys := by
  match xs, ys, hxs, hys with
  | [], [], _, _ => simp
  | [], [_], _, _ => simp
  | [_], [], _, _ => simp
  | [_], [_], _, _ => simp

/-! ## All navigations -/

/-- **An entity of the materializer**, by its first row and the runs of each child. -/
theorem Level.assemble_eq (cells : α → Cells) (info : LevelInfo) (children : List Level)
    (as : List α) : (Level.mk info children).assemble cells as =
      .mk (Holding.headCells cells as) (children.map fun child =>
        (child.info.runs cells as).map (child.assemble cells)) :=
  entity_hold _ as cells info children

/-- Every run shows its level from its first row on. -/
theorem isPresentIn_headCells_of_mem_runs (owns : Level.Owns child.info children)
    {part : List α} (hpart : part ∈ child.info.runs cells as) :
    child.info.isPresentIn (Holding.headCells cells part) = true := by
  have hne := (LevelInfo.shares_runs owns cells as).ne_nil part hpart
  rw [Holding.headCells, List.head?_eq_some_head hne, Option.elim_some]
  exact LevelInfo.present_of_mem_runs owns hpart (List.head_mem hne)

/-- **Both consumers make the same entry of the rows of an entity** exactly when what the
materializer makes of them conforms. -/
theorem Level.compares (hwf : level.WellFormed) :
    ∀ ⦃as⦄, level.Settles cells (level.hold (fun info => info.runs cells) as) →
      level.info.isPresentIn (Holding.headCells cells as) = true → level.Compares cells as := by
  induction level with
  | mk info children ih =>
    obtain ⟨owns, below⟩ := hwf
    intro as hsettles (hpresent : info.isPresentIn _ = true)
    rw [Compares, assemble_eq, gather_eq, entry, entry, gatherBranches, branchEntries_map,
      branchEntries_map, Conforms, branchesConform_map, and_iff_right hpresent, Entry.mk.injEq,
      and_iff_right rfl, List.map_inj_left]
    -- Entries are the same if they are for each child, and so is conformity: one child is enough.
    refine forall₂_congr fun child hchild => ?_
    obtain ⟨k, hk⟩ := List.mem_iff_getElem?.1 hchild
    have howns := (below child hchild).owns
    obtain ⟨hdivides, hsettled⟩ := hsettles.branch hk
    rw [branch_hold _ _ hk, List.forall_mem_map] at hsettled
    rw [branch_hold _ _ hk, rows_hold] at hdivides
    have hrows := map_rows_hold (fun info => info.runs cells) child (child.info.runs cells as)
    have hgathered := gathered_eq_splitBy howns hdivides hrows
    have hrelated := (LevelInfo.shares_runs howns cells as).areRelated
    have hmap := map_entry_eq_iff hgathered hrelated fun part hpart =>
      ih child hchild (below child hchild) (hsettled part hpart)
        (isPresentIn_headCells_of_mem_runs howns hpart)
    rw [Prod.mk.injEq, and_iff_right rfl]
    cases hsingle : child.info.role.isSingle with
    | false => simpa using hmap
    | true =>
      have hfew : (child.info.runs cells as).length ≤ 1 := by
        simpa using hdivides.single hsingle
      have hgather : (((child.info.gathered cells as).map (child.gather cells)).map
          child.entry).length ≤ 1 := by
        simpa using length_gathered_le hgathered hrelated hfew
      have hassemble : (((child.info.runs cells as).map (child.assemble cells)).map
          child.entry).length ≤ 1 := by
        simpa using hfew
      rw [if_pos rfl, if_pos rfl, Branch.single.injEq, head?_eq_head?_iff hgather hassemble, hmap,
        List.length_map, and_iff_right fun _ => hfew]

end

/-! ## Whole streams -/

/-- **Both consumers make the same entries** of rows in the union layout exactly when the forest of
the materializer conforms: its neighbours under each navigation are different entities. -/
theorem entries_agree_iff (spec : LevelSpec) (layout : Layout) (hlayout : spec.layout = .ok layout)
    (rows : List Row) (hunited : ∀ row ∈ rows, layout.IsUnited row) (cursor cursor' : Cursor)
    (hcursor : cursor.Serves rows) (hcursor' : cursor'.Serves rows) (limit : Nat)
    (entries : List Entry) (events : List Event)
    (hdrains : (Materializer.ofCursor layout cursor limit).Drains entries none)
    (hreads : (EventReader.ofCursor layout cursor').Reads events none) :
    entries = (layout.assembled rows).map layout.root.entry ∧
      ∃ forest, layout.readBack events = some forest ∧
        (forest = entries ↔ layout.Conforms AdjacentDiffer (layout.assembled rows)) := by
  have hwf := spec.wellFormed_of_layout hlayout
  have hawaits : (Materializer.ofCursor layout cursor limit).Awaits layout limit (rows.map id) :=
    Materializer.awaits_ofCursor (by rwa [List.map_id])
  obtain ⟨hentries, hsettles, hpresent⟩ := drained_of_drains hwf hawaits hdrains
  have hassembled : entries = (layout.assembled rows).map layout.root.entry := by
    rw [hentries, List.map_map, Layout.assembled, List.map_map]
    rfl
  refine ⟨hassembled, _, Layout.readBack_of_reads hcursor' hreads, ?_⟩
  have hshares := LevelInfo.shares_runs hwf.owns Row.toCells rows
  have hblocks : layout.root.info.gathered Row.toCells rows =
      layout.root.info.blocks Row.toCells rows :=
    congrArg (layout.root.info.blocks Row.toCells) (List.filter_eq_self.2 fun row hrow =>
      hwf.owns.isSubtreePresentIn_of_isPresentIn (hpresent row hrow))
  have hgathered : layout.root.info.gathered Row.toCells rows =
      (layout.root.info.runs Row.toCells rows).flatten.splitBy
        fun a b => layout.root.info.isSame a.toCells b.toCells := by
    rw [hblocks, LevelInfo.blocks, hshares.flatten_eq.trans (List.filter_eq_self.2 hpresent)]
  have hgrown : layout.grown rows =
      (layout.root.info.gathered Row.toCells rows).map (layout.root.gather Row.toCells) := by
    rw [Layout.grown, layout.root.growAll_eq hunited, hblocks]
  have hcompares : ∀ part ∈ layout.root.info.runs Row.toCells rows,
      layout.root.Compares Row.toCells part := fun part hpart =>
    Level.compares hwf (hsettles part hpart) (isPresentIn_headCells_of_mem_runs hwf.owns hpart)
  rw [hassembled, hgrown, Layout.assembled, map_entry_eq_iff hgathered hshares.areRelated hcompares]
  exact ⟨fun h => ⟨h.1, h.2⟩, fun h => ⟨h.roots, h.entities⟩⟩

/-! ## Rows with a gap -/

/-- Items and their tags, which have no key. -/
def LevelSpec.items : LevelSpec :=
  (LevelSpec.empty.key "Id" 0).navigation "Tags" .collection (LevelSpec.empty.property "Tag" 1)

/-- Items by `Id` with tags that have no key, where the two consumers come apart. -/
def Layout.items : Layout where
  root := .mk ⟨0, .root, [⟨"Id", 0⟩], [0], [0], [0, 1], none, 0⟩
    [.mk ⟨1, .navigation "Tags" .collection, [⟨"Tag", 1⟩], [], [1], [1], some 0, 1⟩ []]
  continuation := []
  width := 2

/-- The entry of an item. -/
def Entry.item (id : Int64) (tags : List Int64) : Entry :=
  .mk [("Id", .int id)] [("Tags", .collection (tags.map fun tag => .mk [("Tag", .int tag)] []))]

/-- The events of an item. -/
def Event.item (id : Int64) (tags : List Int64) : List Event :=
  .startElement 0 [("Id", .int id)] :: .startResource 1 ::
    (tags.flatMap fun tag => [.startElement 1 [("Tag", .int tag)], .endElement 1]) ++
      [.endResource 1, .endElement 0]

/-- Different tags around a gap stay apart for both consumers. -/
theorem entries_agree_items :
    let rows : List Row := [⟨[.int 1, .int 7]⟩, ⟨[.int 1, .null]⟩, ⟨[.int 1, .int 8]⟩,
      ⟨[.int 2, .null]⟩]
    let entries : List Entry := [.item 1 [7, 8], .item 2 []]
    let events : List Event := Event.item 1 [7, 8] ++ Event.item 2 [] ++ [.endOfRows]
    (Materializer.ofCursor .items (.ofDeliveries (rows.map .row)) 3).Drains entries none ∧
      (EventReader.ofCursor .items (.ofDeliveries (rows.map .row))).Reads events none ∧
      Layout.items.readBack events = some entries := by
  intro rows entries events
  have hserves := Cursor.serves_ofDeliveries rows
  have hdrains : (Materializer.ofCursor .items (.ofDeliveries (rows.map .row)) 3).Drains entries
      none :=
    .of_fst_some rfl (.of_fst_some rfl (.of_fst_none rfl))
  have hplaces : Places Layout.items.placeRow [] rows _ _ :=
    .cons rfl (.cons rfl (.cons rfl (.cons rfl .nil)))
  have hreads : (EventReader.ofCursor .items (.ofDeliveries (rows.map .row))).Reads events none :=
    (EventReader.awaits_ofCursor hserves).reads_of_places hplaces (by decide)
  obtain ⟨-, forest, hforest, hiff⟩ := entries_agree_iff .items .items rfl rows (by decide) _ _
    hserves hserves 3 entries events hdrains hreads
  have hconforms : Layout.items.Conforms AdjacentDiffer (Layout.items.assembled rows) :=
    ⟨by decide, by decide⟩
  exact ⟨hdrains, hreads, hforest.trans (congrArg some (hiff.2 hconforms))⟩

/-- **The same tag on both sides of a gap** is there twice for the materializer, and once for the
event reader. -/
theorem consumers_disagree :
    let rows : List Row := [⟨[.int 1, .int 7]⟩, ⟨[.int 1, .null]⟩, ⟨[.int 1, .int 7]⟩]
    let events : List Event := Event.item 1 [7] ++ [.endOfRows]
    LevelSpec.items.layout = .ok .items ∧ (∀ row ∈ rows, Layout.items.IsUnited row) ∧
      (Materializer.ofCursor .items (.ofDeliveries (rows.map .row)) 3).Drains [.item 1 [7, 7]]
        none ∧
      (EventReader.ofCursor .items (.ofDeliveries (rows.map .row))).Reads events none ∧
      Layout.items.readBack events = some [.item 1 [7]] ∧
      [Entry.item 1 [7]] ≠ [Entry.item 1 [7, 7]] := by
  intro rows events
  have hplaces : Places Layout.items.placeRow [] rows _ _ :=
    .cons rfl (.cons rfl (.cons rfl .nil))
  have hreads : (EventReader.ofCursor .items (.ofDeliveries (rows.map .row))).Reads events none :=
    (EventReader.awaits_ofCursor (Cursor.serves_ofDeliveries rows)).reads_of_places hplaces
      (by decide)
  exact ⟨rfl, by decide, .of_fst_some rfl (.of_fst_none rfl), hreads, rfl, by simp [Entry.item]⟩

end QueryPlans
