import QueryPlans.Proofs.Layout.Arena

/-!
# Proofs/Layout/Arrangement — which descriptions have an arena, and what is in it

An arena arranges a description (`Arena.Arranges`) when its nodes are the levels of the outline, one
after the other, and find each other by their indices: the children of a node are the nodes with
that parent, the nodes below it form a stretch behind it, and the way up from it ends at the root.
The columns of a node are its own, and those of a subtree the columns of its nodes.  Sound
descriptions have an arena that arranges them unless the arithmetic is checked and a column has no
successor (`LevelSpec.arena_arranges`).
-/

namespace QueryPlans

open Level

/-! ## Arenas that arrange a description -/

namespace Arena

section

variable (arena : Arena)

/-- The parent of the node at an index, if it has one. -/
def parentOf (index : Nat) : Option Nat := arena.nodes[index]?.bind Node.parent

/-- What an arena tells of the description of a node. -/
def siteAt (index : Nat) : Except Fault Site := do
  let node ← arena.nodeAt index
  let path ← arena.navigationPath index
  let children ← node.children.mapM arena.nodeAt
  let navigations := children.filterMap fun child => child.role.navigation?
  return ⟨path, node.role, node.properties, node.keyColumns, navigations⟩

/-- A node lies below another, or is it: the way up leads there. -/
inductive IsBelow (top : Nat) : Nat → Prop
  | top : IsBelow top top
  | up {index parent : Nat} (hparent : arena.parentOf index = some parent)
    (h : IsBelow top parent) : IsBelow top index

end

/-- What lies below a node lies below its parent. -/
theorem IsBelow.of_parent {arena : Arena} {top parent index : Nat}
    (hparent : arena.parentOf top = some parent) (h : arena.IsBelow top index) :
    arena.IsBelow parent index := by
  induction h with
  | top => exact .up hparent .top
  | up hup _ ih => exact .up hup ih

/-- **A node among the others**, at its index. -/
structure IsSettled (arena : Arena) (index : Nat) (node : Node) : Prop where
  /-- The children are the nodes with this parent, in the order of the nodes. -/
  children : node.children =
    (List.range arena.nodes.size).filter fun j => arena.parentOf j = some index
  below : ∀ j ∈ node.children, index < j ∧
    ∃ child : Node, arena.nodes[j]? = some child ∧ child.depth = node.depth + 1
  columns_lt : node.columns.Pairwise (· < ·)
  mem_columns : ∀ c, c ∈ node.columns ↔
    c ∈ node.properties.map PropertyColumn.column ++ node.keyColumns
  subtreeColumns_lt : node.subtreeColumns.Pairwise (· < ·)
  /-- The nodes below are a stretch, and no two of them share a column. -/
  subtree : ∃ count, (∀ j, arena.IsBelow index j ↔ index ≤ j ∧ j < index + count) ∧
    node.subtreeColumns.Perm (((arena.nodes.toList.drop index).take count).flatMap Node.columns)
  siblings : node.children.Pairwise fun a b => ∀ x ∈ arena.nodes[a]?, ∀ y ∈ arena.nodes[b]?,
    x.subtreeColumns.Disjoint y.subtreeColumns

/-- **An arena arranges a description.** -/
structure Arranges (arena : Arena) (spec : LevelSpec) : Prop where
  /-- The nodes are the levels of the description, each reached by the way it has there. -/
  outline : (List.range arena.nodes.size).mapM arena.siteAt = .ok spec.outline
  root : ∃ node : Node, arena.nodes[0]? = some node ∧ node.parent = none ∧ node.depth = 0
  nodes : ∀ index node, arena.nodes[index]? = some node → arena.IsSettled index node
  continuation : arena.continuation = spec.continuation
  /-- The width is the least that a row needs for all columns. -/
  width : (∀ c ∈ spec.columns, c < greatestWord) →
    ∀ w, arena.width ≤ w ↔ ∀ c ∈ spec.columns, c < w
  /-- Where the greatest word is a column the width has wrapped around. -/
  overflow : greatestWord ∈ spec.columns → (∀ c ∈ spec.columns, c ≤ greatestWord) →
    arena.width = 0

end Arena

/-! ## Nodes and levels -/

namespace LaysOut

variable {layout : Layout} {spec : LevelSpec} {level : Level} {node : Node} {i j : Nat}

/-- The nodes are the levels of the layout in order. -/
theorem getElem?_nodes (layout : Layout) (i : Nat) :
    layout.arena.nodes[i]? = layout.levels[i]?.map Level.toNode := by
  simp [Layout.arena]

theorem size_nodes (layout : Layout) : layout.arena.nodes.size = layout.levels.length := by
  simp [Layout.arena]

section

variable (h : LaysOut ⟨none, 0, 0⟩ [(.root, spec)] [layout.root])

include h

/-- **The nodes of an arena are the levels of its layout**, each at its index. -/
theorem getElem?_nodes_eq_some_iff : layout.arena.nodes[i]? = some node ↔
    ∃ level ∈ layout.levels, level.index = i ∧ level.toNode = node := by
  rw [getElem?_nodes, Option.map_eq_some_iff]
  constructor
  · rintro ⟨level, hlevel, hnode⟩
    obtain ⟨hlt, rfl⟩ := List.getElem?_eq_some_iff.1 hlevel
    exact ⟨_, List.getElem_mem hlt, h.index_getElem hlt, hnode⟩
  · rintro ⟨level, hlevel, rfl, hnode⟩
    exact ⟨level, h.getElem?_index hlevel, hnode⟩

theorem getElem?_nodes_index (hlevel : level ∈ layout.levels) :
    layout.arena.nodes[level.index]? = some level.toNode :=
  h.getElem?_nodes_eq_some_iff.2 ⟨level, hlevel, rfl, rfl⟩

/-- The index of a level leads to its node. -/
theorem nodeAt_index (hlevel : level ∈ layout.levels) :
    layout.arena.nodeAt level.index = .ok level.toNode := by
  rw [Arena.nodeAt, h.getElem?_nodes_index hlevel]

/-- **The node that lists an index as a child is its parent**, and no other one lists it. -/
theorem parentOf_index (hlevel : level ∈ layout.levels) :
    layout.arena.parentOf level.index = level.info.parent := by
  rw [Arena.parentOf, h.getElem?_nodes_index hlevel]
  rfl

/-! ## The way up -/

/-- Climbing reads the names on the way up, and ends. -/
theorem climb_eq (hlevel : level ∈ layout.levels) {bound : Nat} (hbound : level.index < bound)
    (names : List String) : layout.arena.climb bound (some level.index) names =
      .ok (names ++ layout.namesUpward bound level.index) := by
  induction bound generalizing level names with
  | zero => exact absurd hbound (Nat.not_lt_zero _)
  | succ bound ih =>
    rw [Arena.climb, h.nodeAt_index hlevel, ok_bind, h.namesUpward_succ hlevel, ← List.append_assoc]
    cases hparent : level.info.parent with
    | none => simp [Level.toNode, hparent, Arena.climb]
    | some q =>
      obtain ⟨hq, other, hother, rfl⟩ := h.exists_parent hlevel hparent
      have hnode : level.toNode.parent = some other.index := hparent
      rw [hnode]
      exact ih hother (by omega) _

/-- **The loop over nodes finds the path that the levels have.** -/
theorem navigationPath_arena (hlevel : level ∈ layout.levels) :
    layout.arena.navigationPath level.index = .ok (layout.navigationPath level.index) := by
  have hlt : level.index < layout.levels.length := h.index_lt hlevel
  rw [Arena.navigationPath, size_nodes, h.climb_eq hlevel hlt]
  rfl

/-- What stands in a node is what was specified for its level. -/
theorem siteAt_arena (hlevel : level ∈ layout.levels) :
    layout.arena.siteAt level.index = .ok (layout.siteOf level) := by
  have hchildren : (level.children.map Level.index).mapM layout.arena.nodeAt =
      .ok (level.children.map Level.toNode) := by
    rw [List.mapM_map]
    exact mapM_eq_ok fun child hchild =>
      h.nodeAt_index (Layout.mem_levels_of_child hlevel hchild)
  have hnode : level.toNode.children = level.children.map Level.index := rfl
  rw [Arena.siteAt, h.nodeAt_index hlevel, ok_bind, h.navigationPath_arena hlevel, ok_bind, hnode,
    hchildren, ok_bind, List.filterMap_map]
  rfl

/-- **The nodes in order tell the outline of the description.** -/
theorem mapM_siteAt : (List.range layout.arena.nodes.size).mapM layout.arena.siteAt =
    .ok spec.outline := by
  have hsites : layout.levels.mapM (layout.arena.siteAt ∘ Level.index) =
      .ok (layout.levels.map layout.siteOf) := mapM_eq_ok fun _ => h.siteAt_arena
  rw [size_nodes, ← h.map_index_levels, List.mapM_map, hsites, h.map_siteOf_levels]

/-! ## Below a node -/

/-- **The children of a node** are the nodes that have it as their parent. -/
theorem children_toNode (hlevel : level ∈ layout.levels) : level.toNode.children =
    (List.range layout.arena.nodes.size).filter
      fun j => layout.arena.parentOf j = some level.index := by
  have hfilter : (layout.levels.filter fun other => layout.arena.parentOf other.index =
      some level.index) = levelsUnder (some level.index) layout.levels :=
    List.filter_congr fun other hother => by rw [h.parentOf_index hother]
  rw [size_nodes, ← h.map_index_levels, List.filter_map]
  exact congrArg (List.map Level.index) ((h.levelsUnder_levels hlevel).symm.trans hfilter.symm)

/-- Levels of a subtree are below its level, step by step from child to child. -/
theorem isBelow_of_mem_preorder (hlevel : level ∈ layout.levels) {other : Level}
    (hother : other ∈ level.preorder) : layout.arena.IsBelow level.index other.index := by
  induction level with
  | mk info children ih =>
    rcases mem_preorder_iff.1 hother with rfl | ⟨child, hchild, hbelow⟩
    · exact .top
    · obtain ⟨hmem, hparent⟩ := (h.mem_children_iff hlevel).1 hchild
      rw [← h.parentOf_index hmem] at hparent
      exact .of_parent hparent (ih child hchild hmem hbelow)

/-- **The nodes below a node** have the stretch of indices behind it. -/
theorem isBelow_iff (hlevel : level ∈ layout.levels) : layout.arena.IsBelow level.index j ↔
    level.index ≤ j ∧ j < level.index + level.preorder.length := by
  constructor
  · intro hbelow
    induction hbelow with
    | top => exact ⟨Nat.le_refl _,
        Nat.lt_add_of_pos_right (List.length_pos_of_mem (mem_preorder_self level))⟩
    | @up j parent hparent _ ih =>
      obtain ⟨node, hnode, hparent⟩ := Option.bind_eq_some_iff.1 hparent
      obtain ⟨other, hother, rfl, rfl⟩ := h.getElem?_nodes_eq_some_iff.1 hnode
      obtain ⟨-, above, habove, rfl⟩ := h.exists_parent hother hparent
      have hchild : other ∈ above.preorder :=
        Level.mem_preorder_of_mem_children ((h.mem_children_iff habove).2 ⟨hother, hparent⟩)
      have habove' : above ∈ level.preorder := (h.mem_preorder_iff_index hlevel habove).2 ih
      exact (h.mem_preorder_iff_index hlevel hother).1 ((preorder_isInfix habove').subset hchild)
  · intro hj
    rw [← List.mem_range'_1, ← h.map_index_subtree hlevel] at hj
    obtain ⟨other, hother, rfl⟩ := List.mem_map.1 hj
    exact h.isBelow_of_mem_preorder hlevel hother

/-- **A level is settled** as a node at its index. -/
theorem isSettled (hsound : Site.AreSound spec.outline) (hwf : layout.root.WellFormed)
    (hlevel : level ∈ layout.levels) : layout.arena.IsSettled level.index level.toNode where
  children := h.children_toNode hlevel
  below := by
    rw [Level.toNode, List.forall_mem_map]
    intro child hchild
    obtain ⟨hindex, hdepth⟩ := h.children_levels hlevel hchild
    exact ⟨hindex, child.toNode,
      h.getElem?_nodes_index (Layout.mem_levels_of_child hlevel hchild), hdepth⟩
  columns_lt := h.pairwise_lt_columns hlevel
  mem_columns c := by
    rw [Level.toNode, h.columns_levels hlevel, mem_columnSet]
    rfl
  subtreeColumns_lt := h.pairwise_lt_subtree hsound hlevel
  subtree := by
    refine ⟨level.preorder.length, fun j => h.isBelow_iff hlevel, ?_⟩
    have hnodes : layout.arena.nodes.toList = layout.levels.map Level.toNode := rfl
    rw [hnodes, ← List.map_drop, ← List.map_take, h.take_drop_levels hlevel, List.flatMap_map]
    exact h.perm_subtree hlevel
  siblings := by
    rw [Level.toNode, List.pairwise_map]
    refine (hwf.of_mem_preorder hlevel).owns.disjoint_siblings.imp_of_mem ?_
    intro a b ha hb hdisjoint x hx y hy
    rw [h.getElem?_nodes_index (Layout.mem_levels_of_child hlevel ha)] at hx
    rw [h.getElem?_nodes_index (Layout.mem_levels_of_child hlevel hb)] at hy
    cases hx
    cases hy
    exact hdisjoint

end

end LaysOut

/-! ## Arenas of descriptions -/

namespace LevelSpec

variable {arithmetic : Arithmetic} {spec : LevelSpec} {layout : Layout}

/-- A layout reads the columns that its description names. -/
theorem mem_columns_layout (h : spec.layoutWith arithmetic = .ok layout) (c : Nat) :
    c ∈ layout.columns ↔ c ∈ spec.columns := by
  obtain ⟨⟨_, hplace⟩, -, hcontinuation, -⟩ := layoutWith_eq_ok_iff.1 h
  rw [Layout.columns, columns, List.mem_append, List.mem_append, hcontinuation]
  exact or_congr_left (mem_columns_place hplace c)

/-- The layout is the same by any arithmetic as long as all columns have successors. -/
theorem layout_of_layoutWith (h : spec.layoutWith arithmetic = .ok layout)
    (hlt : ∀ c ∈ spec.columns, c < greatestWord) : spec.layout = .ok layout := by
  obtain ⟨hplace, hpaths, hcontinuation, hwidth⟩ := layoutWith_eq_ok_iff.1 h
  refine layoutWith_eq_ok_iff.2 ⟨hplace, hpaths, hcontinuation, ?_⟩
  rw [← arithmetic.widthOf_eq_checked fun c hc => hlt c ((mem_columns_layout h c).1 hc), hwidth]

/-- **The arena of a description arranges it.** -/
theorem arranges_of_layout (h : spec.layoutWith arithmetic = .ok layout) :
    layout.arena.Arranges spec := by
  have hlaysOut := laysOut_of_layout h
  obtain ⟨-, -, hcontinuation, hwidth⟩ := layoutWith_eq_ok_iff.1 h
  have hcolumns := mem_columns_layout h
  refine ⟨hlaysOut.mapM_siteAt, ?root, ?nodes, hcontinuation, ?width, ?overflow⟩
  case root =>
    obtain ⟨hparent, hdepth, -⟩ := hlaysOut.root layout.root List.mem_cons_self
    refine ⟨layout.root.toNode, ?_, hparent, hdepth⟩
    rw [LaysOut.getElem?_nodes, layout.getElem?_zero]
    rfl
  case nodes =>
    intro index node hnode
    obtain ⟨level, hlevel, rfl, rfl⟩ := hlaysOut.getElem?_nodes_eq_some_iff.1 hnode
    exact hlaysOut.isSettled (exists_layout_iff.1 ⟨layout, h⟩).1.levels (wellFormed_of_layout h)
      hlevel
  case width =>
    intro hlt
    simp only [← hcolumns] at hlt ⊢
    obtain ⟨width, hleast, hle⟩ := arithmetic.exists_widthOf hlt
    cases hwidth.symm.trans hleast
    exact hle
  case overflow =>
    intro hmem hle
    simp only [← hcolumns] at hmem hle
    cases arithmetic with
    | checked => exact absurd (Arithmetic.exists_widthOf_iff.1 ⟨_, hwidth⟩ rfl _ hmem) (lt_irrefl _)
    | wrapping => exact Except.ok.inj (hwidth.symm.trans (Arithmetic.widthOf_wrapping hmem hle))

/-- **An arena is grown exactly if a layout is made**, and of the levels of that. -/
theorem arena_eq_ok_iff {arena : Arena} : spec.arena arithmetic = .ok arena ↔
    ∃ layout, spec.layoutWith arithmetic = .ok layout ∧ arena = layout.arena := by
  rw [arena_eq]
  cases spec.layoutWith arithmetic with
  | error e => simp [Except.map, Except.mapError]
  | ok layout => simp [Except.map, Except.mapError, eq_comm]

/-- Growing fails for what a layout is refused for, and for no index out of range. -/
theorem arena_eq_error_iff {fault : Arena.Fault} : spec.arena arithmetic = .error fault ↔
    ∃ e, fault = .refused e ∧ spec.layoutWith arithmetic = .error e := by
  rw [arena_eq]
  cases spec.layoutWith arithmetic with
  | error e => simp [Except.map, Except.mapError, eq_comm]
  | ok layout => simp [Except.map, Except.mapError]

/-- **Descriptions have an arena just when they are sound** and, for checked arithmetic, all their
columns have successors; otherwise they are refused for their first defect.  The arena arranges the
description, no index is out of range and every way up ends; it is the layout in one vector, and
that is the same by any arithmetic unless a column has no successor. -/
theorem arena_arranges (arithmetic : Arithmetic) (spec : LevelSpec) :
    ((∃ arena, spec.arena arithmetic = .ok arena) ↔ spec.IsSound ∧ spec.Fits arithmetic) ∧
    (∀ fault, spec.arena arithmetic = .error fault ↔ ∃ e, fault = .refused e ∧
      (spec.Refused e ∨ spec.IsSound ∧ ¬ spec.Fits arithmetic ∧ e = .widthOverflow)) ∧
    ∀ arena, spec.arena arithmetic = .ok arena → arena.Arranges spec ∧
      ∃ layout, spec.layoutWith arithmetic = .ok layout ∧ arena = layout.arena ∧
        ((∀ c ∈ spec.columns, c < greatestWord) → spec.layout = .ok layout) := by
  refine ⟨?_, fun fault => ?_, fun arena harena => ?_⟩
  · simp only [arena_eq_ok_iff, ← exists_layout_iff]
    exact ⟨fun ⟨_, layout, hlayout, _⟩ => ⟨layout, hlayout⟩,
      fun ⟨layout, hlayout⟩ => ⟨_, layout, hlayout, rfl⟩⟩
  · simp only [arena_eq_error_iff, layout_eq_error_iff]
  · obtain ⟨layout, hlayout, rfl⟩ := arena_eq_ok_iff.1 harena
    exact ⟨arranges_of_layout hlayout, layout, hlayout, rfl, layout_of_layoutWith hlayout⟩

/-! ## Customers with orders -/

/-- Customers with orders, which have items, and an address. -/
def customers : LevelSpec :=
  let items := empty.key "Id" 3
  let orders := (empty.key "Id" 2).navigation "Items" .collection items
  let address := empty.property "City" 4
  (((empty.key "Id" 0).property "Name" 1).navigation "Orders" .collection orders).navigation
    "Address" .single address

/-- The customers have their orders and their address at the indices 1 and 3, and the items of the
orders at 2; orders without columns, or with the column of the customers, are refused. -/
theorem arena_arranges_customers :
    (∃ arena, customers.arena .checked = .ok arena ∧ arena.Arranges customers ∧
      arena.nodes.toList.map Node.children = [[1, 3], [2], [], []] ∧
      arena.nodes.toList.map Node.subtreeColumns = [[0, 1, 2, 3, 4], [2, 3], [3], [4]] ∧
      arena.navigationPath 2 = .ok ["Orders", "Items"] ∧ arena.width = 5) ∧
    ((empty.key "Id" 0).navigation "Orders" .collection empty).arena .checked =
      .error (.refused (.noColumns "Orders")) ∧
    ((empty.key "Id" 0).navigation "Orders" .collection (empty.key "No" 0)).arena .checked =
      .error (.refused (.sharedColumn 0 "Orders")) := by
  let customer : Site := ⟨[], .root, [⟨"Id", 0⟩], [0], [("Orders", .collection)]⟩
  have hcustomer : Site.AreSound [customer] :=
    Site.areSound_cons.2 ⟨⟨List.cons_ne_nil _ _, by decide⟩, Site.areSound_nil, nofun⟩
  have hrefused {orders : LevelSpec} {site : Site} {e : LayoutError}
      (houtline : ((empty.key "Id" 0).navigation "Orders" .collection orders).outline =
        [customer] ++ [site]) (hsite : site.Refused [customer] e) :
      ((empty.key "Id" 0).navigation "Orders" .collection orders).arena .checked =
        .error (.refused e) :=
    ((arena_arranges .checked _).2.1 _).2 ⟨e, rfl, .inl (.level houtline hcustomer hsite)⟩
  refine ⟨⟨_, rfl, ((arena_arranges .checked customers).2.2 _ rfl).1, rfl, rfl, rfl, rfl⟩,
    hrefused rfl (.noColumns rfl),
    hrefused rfl (.sharedColumn List.mem_cons_self ?_ fun c _ _ => Nat.zero_le c)⟩
  exact ⟨customer, List.mem_cons_self, List.mem_cons_self⟩

/-- **A sound description without a layout**: the greatest word is a column like any other, but no
row is wide enough for it.  Checked arithmetic breaks off; when sums wrap around, the arena arranges
the description and yet has no width. -/
theorem greatestColumn_overflows :
    (empty.key "Id" greatestWord).IsSound ∧
    (empty.key "Id" greatestWord).arena .checked = .error (.refused .widthOverflow) ∧
    ∃ arena, (empty.key "Id" greatestWord).arena .wrapping = .ok arena ∧
      arena.nodes.toList.map Node.columns = [[greatestWord]] ∧ arena.width = 0 := by
  refine ⟨⟨Site.areSound_cons.2 ⟨⟨List.cons_ne_nil _ _, by decide⟩, Site.areSound_nil, nofun⟩,
    nofun⟩, rfl, _, rfl, rfl, rfl⟩

end LevelSpec

end QueryPlans
