import Mathlib.Data.List.Find
import QueryPlans.Proofs.Layout.Numbering

/-!
# Proofs/Layout/Arena — the levels of a layout in one vector

Here the levels are nodes of one vector that grows while a description is gone through.  A level is
appended before those below it, so what it says of them is filled in later: each navigation takes
the number of nodes for the position of its own node, which its parent hears of once the recursion
is back, and the columns of a subtree are known last.  Changing or reading a node that is not there
and climbing without end are faults of their own (`Arena.Fault`).  Growing the vector runs into
neither: it fails as placing does, and otherwise has the levels of the tree, in preorder
(`LevelSpec.arena_eq`).
-/

namespace QueryPlans

open Level

/-- A level in a vector, which knows the levels around it by their positions. -/
structure Node where
  role : Role
  properties : List PropertyColumn
  keyColumns : List Nat
  /-- The columns of the level in order, each once. -/
  columns : List Nat
  /-- The columns of the level and of all levels below it, in order. -/
  subtreeColumns : List Nat
  parent : Option Nat
  children : List Nat
  depth : Nat
deriving DecidableEq

namespace Node

/-- A node that has heard of some of its children. -/
def addChildren (indices : List Nat) (node : Node) : Node :=
  { node with children := node.children ++ indices }

/-- A node whose subtree is known. -/
def setSubtree (columns : List Nat) (node : Node) : Node := { node with subtreeColumns := columns }

theorem addChildren_nil (node : Node) : node.addChildren [] = node := by
  rw [addChildren, List.append_nil]

theorem addChildren_addChildren (node : Node) (indices more : List Nat) :
    (node.addChildren indices).addChildren more = node.addChildren (indices ++ more) :=
  congrArg (fun children => { node with children }) (List.append_assoc _ _ _)

end Node

/-- A level of a tree as a node. -/
def Level.toNode (level : Level) : Node where
  role := level.info.role
  properties := level.info.properties
  keyColumns := level.info.keyColumns
  columns := level.info.columns
  subtreeColumns := level.info.subtreeColumns
  parent := level.info.parent
  children := level.children.map Level.index
  depth := level.info.depth

/-- A layout in one vector. -/
structure Arena where
  nodes : Array Node
  continuation : List ContinuationColumn
  width : Nat

/-- A layout as an arena. -/
def Layout.arena (layout : Layout) : Arena :=
  ⟨(layout.levels.map Level.toNode).toArray, layout.continuation, layout.width⟩

/-- What keeps an arena from being made or read. -/
inductive Arena.Fault where
  | refused (error : LayoutError)
  /-- There is no node at an index. -/
  | outOfRange (index : Nat)
  /-- A way up goes on beyond its bound. -/
  | unending
deriving DecidableEq

/-! ## Growing -/

/-- The nodes so far, and the columns that they own. -/
structure Draft where
  nodes : Array Node
  owned : List Nat

namespace Draft

/-- Appends a node. -/
def push (draft : Draft) (node : Node) : Draft := { draft with nodes := draft.nodes.push node }

/-- Changes the node at an index. -/
def patch (draft : Draft) (index : Nat) (change : Node → Node) : Except Arena.Fault Draft :=
  if index < draft.nodes.size then .ok { draft with nodes := draft.nodes.modify index change }
  else .error (.outOfRange index)

/-- Takes columns for a level, one by one, until one has an owner. -/
def own (label : String) : List Nat → Draft → Except Arena.Fault Draft
  | [], draft => return draft
  | column :: rest, draft =>
    if column ∈ draft.owned then .error (.refused (.sharedColumn column label))
    else own label rest { draft with owned := draft.owned ++ [column] }

/-- Takes the columns of a level, which are not to be none, nor its navigations to share a name. -/
def enter (label : String) (columns : List Nat) (names : List String) (draft : Draft) :
    Except Arena.Fault Draft :=
  if columns.isEmpty then .error (.refused (.noColumns label))
  else do
    let draft ← own label columns draft
    match firstRepeated? [] names with
    | some name => .error (.refused (.repeatedNavigation name label))
    | none => return draft

end Draft

mutual

/-- **Appends a level** and those below it; the answer is the columns of them all. -/
def LevelSpec.grow (role : Role) (parent : Option Nat) (depth : Nat) :
    LevelSpec → Draft → Except Arena.Fault (List Nat × Draft)
  | .mk properties keyColumns navigations _, draft => do
    let columns := columnSet (properties.map PropertyColumn.column ++ keyColumns)
    let draft ← draft.enter role.label columns (navigations.map Prod.fst)
    let index := draft.nodes.size
    let node : Node := { role, properties, keyColumns, columns, subtreeColumns := [], parent,
                         children := [], depth }
    let (subtree, draft) ← growNavigations index (depth + 1) navigations columns (draft.push node)
    let subtree := sortColumns subtree
    let draft ← draft.patch index (Node.setSubtree subtree)
    return (subtree, draft)

/-- Appends the levels of several navigations, and adds their columns to those there are. -/
def growNavigations (parent depth : Nat) : List (String × Cardinality × LevelSpec) → List Nat →
    Draft → Except Arena.Fault (List Nat × Draft)
  | [], subtree, draft => return (subtree, draft)
  | (name, cardinality, target) :: rest, subtree, draft => do
    let child := draft.nodes.size
    let (columns, draft) ← target.grow (.navigation name cardinality) (some parent) depth draft
    let draft ← draft.patch parent (Node.addChildren [child])
    growNavigations parent depth rest (subtree ++ columns) draft

end

/-- **The arena of a description**, by an arithmetic. -/
def LevelSpec.arena (arithmetic : Arithmetic) (spec : LevelSpec) : Except Arena.Fault Arena := do
  let (_, draft) ← spec.grow .root none 0 ⟨#[], []⟩
  match spec.continuation.find? fun column => column.path.isEmpty with
  | some column => .error (.refused (.emptyContinuationPath column.property))
  | none =>
    let owned := draft.nodes.toList.flatMap Node.columns
    let read := spec.continuation.map ContinuationColumn.column
    let width ← (arithmetic.widthOf (owned ++ read)).mapError .refused
    return ⟨draft.nodes, spec.continuation, width⟩

/-! ## Reading -/

namespace Arena

variable (arena : Arena)

/-- The node at an index. -/
def nodeAt (index : Nat) : Except Fault Node :=
  match arena.nodes[index]? with
  | none => .error (.outOfRange index)
  | some node => .ok node

/-- Collects the names on the way up; the first argument bounds the number of steps. -/
def climb : Nat → Option Nat → List String → Except Fault (List String)
  | _, none, names => return names
  | 0, some _, _ => .error .unending
  | bound + 1, some index, names => do
    let node ← arena.nodeAt index
    climb bound node.parent (names ++ node.role.name?.toList)

/-- **The navigations that lead from the root to a node.** -/
def navigationPath (index : Nat) : Except Fault (List String) := do
  let names ← arena.climb arena.nodes.size (some index) []
  return names.reverse

end Arena

/-! ## Growing and placing -/

section

variable {before after : List Node} {node : Node} {owned columns : List Nat} {label : String}
  {names : List String}

/-- A change meets the node that stands at the index. -/
theorem Draft.patch_append (change : Node → Node) :
    Draft.patch ⟨(before ++ node :: after).toArray, owned⟩ before.length change =
      .ok ⟨(before ++ change node :: after).toArray, owned⟩ := by
  have hlt : before.length < (before ++ node :: after).length := by simp
  rw [patch, List.size_toArray, if_pos hlt, List.modify_toArray,
    List.modify_eq_take_cons_drop hlt]
  simp

/-- Columns are taken one by one until the first that has an owner already. -/
theorem Draft.own_eq (hnodup : columns.Nodup) (nodes : Array Node) :
    Draft.own label columns ⟨nodes, owned⟩ = match columns.find? owned.contains with
      | some column => .error (.refused (.sharedColumn column label))
      | none => .ok ⟨nodes, owned ++ columns⟩ := by
  induction columns generalizing owned with
  | nil => simp [own]
  | cons column rest ih =>
    obtain ⟨hcolumn, hrest⟩ := List.nodup_cons.1 hnodup
    rw [own, List.find?_cons]
    by_cases howned : column ∈ owned
    · simp [howned]
    · have hfind : rest.find? (owned ++ [column]).contains = rest.find? owned.contains :=
        List.find?_congr fun c hc => by
          have hne : c ≠ column := fun heq => hcolumn (heq ▸ hc)
          simp [hne]
      have hcontains : owned.contains column = false := by simpa using howned
      rw [if_neg howned, ih hrest, hfind, hcontains, List.append_assoc]
      rfl

/-- A level is entered just when it is without faults of its own. -/
theorem Draft.enter_eq (hnodup : columns.Nodup) (nodes : Array Node) :
    Draft.enter label columns names ⟨nodes, owned⟩ =
      ((checkLevel label columns owned names).map fun _ => ⟨nodes, owned ++ columns⟩).mapError
        .refused := by
  rw [enter, checkLevel, own_eq hnodup]
  cases columns.isEmpty with
  | true => rfl
  | false =>
    cases columns.find? owned.contains with
    | some column => rfl
    | none => cases firstRepeated? [] names <;> rfl

end

/-- A placed level stands at the next index. -/
theorem LevelSpec.index_of_place {spec : LevelSpec} {role : Role} {parent : Option Nat}
    {depth : Nat} {placed placed' : Placed} {level : Level}
    (h : spec.place role parent depth placed = .ok (level, placed')) :
    level.index = placed.next := by
  obtain ⟨properties, keyColumns, navigations, continuation⟩ := spec
  rw [place] at h
  obtain ⟨⟨⟩, -, h⟩ := bind_eq_ok_iff.1 h
  obtain ⟨⟨children, after⟩, -, h⟩ := bind_eq_ok_iff.1 h
  cases h
  rfl

/-- The draft once levels have been placed behind its nodes. -/
def Placed.draft (placed : Placed) (nodes : List Node) (levels : List Level) : Draft :=
  ⟨(nodes ++ (preorderAll levels).map Level.toNode).toArray, placed.owned⟩

theorem growNavigations_eq {parent depth : Nat}
    {navigations : List (String × Cardinality × LevelSpec)}
    (ih : ∀ navigation ∈ navigations, ∀ role parent depth nodes owned,
      navigation.2.2.grow role parent depth ⟨List.toArray nodes, owned⟩ =
        ((navigation.2.2.place role parent depth ⟨nodes.length, owned⟩).map fun result =>
          (result.1.info.subtreeColumns, result.2.draft nodes [result.1])).mapError .refused)
    {before : List Node} (hparent : before.length = parent) (node : Node) (after : List Node)
    (owned subtree : List Nat) :
    growNavigations parent depth navigations subtree ⟨(before ++ node :: after).toArray, owned⟩ =
      ((placeNavigations parent depth navigations ⟨(before ++ node :: after).length, owned⟩).map
        fun result => (subtree ++ result.1.flatMap fun level => level.info.subtreeColumns,
          result.2.draft (before ++ node.addChildren (result.1.map Level.index) :: after)
            result.1)).mapError .refused := by
  subst hparent
  induction navigations generalizing node after owned subtree with
  | nil =>
    rw [growNavigations, placeNavigations]
    simp [Except.map, Except.mapError, Node.addChildren_nil, Placed.draft, preorderAll]
  | cons navigation rest ihrest =>
    obtain ⟨name, cardinality, target⟩ := navigation
    rw [List.forall_mem_cons] at ih
    rw [growNavigations, placeNavigations, ih.1]
    cases hplace : target.place (.navigation name cardinality) (some before.length) depth
      ⟨(before ++ node :: after).length, owned⟩ with
    | error e => rfl
    | ok result =>
      obtain ⟨level, next, owned'⟩ := result
      have hchild : (before ++ node :: after).toArray.size = level.index :=
        (LevelSpec.index_of_place hplace).symm
      have hnext : next = (before ++ node.addChildren [level.index] ::
          (after ++ level.preorder.map Level.toNode)).length := by
        have hplaced := (target.laysOut_of_place _ _ _ _ _ _ hplace).1
        simpa [Nat.add_assoc, Nat.add_comm 1] using hplaced
      -- The nodes of the child stand behind the parent, whose position they do not change.
      have hdraft : Placed.draft ⟨next, owned'⟩ (before ++ node :: after) [level] =
          ⟨(before ++ node :: (after ++ level.preorder.map Level.toNode)).toArray, owned'⟩ := by
        simp [Placed.draft, preorderAll_singleton]
      simp only [Except.map, Except.mapError, ok_bind, hchild, hdraft, Draft.patch_append]
      rw [ihrest ih.2, ← hnext]
      cases placeNavigations before.length depth rest ⟨next, owned'⟩ with
      | error e => rfl
      | ok result =>
        simp [Except.map, Except.mapError, Placed.draft, preorderAll, Node.addChildren_addChildren]

/-- **Growing goes along with placing**: it has the same faults, and appends the placed levels. -/
theorem LevelSpec.grow_eq (spec : LevelSpec) : ∀ role parent depth nodes owned,
    spec.grow role parent depth ⟨List.toArray nodes, owned⟩ =
      ((spec.place role parent depth ⟨nodes.length, owned⟩).map fun result =>
        (result.1.info.subtreeColumns, result.2.draft nodes [result.1])).mapError .refused := by
  induction spec with
  | mk properties keyColumns navigations continuation ih =>
    intro role parent depth nodes owned
    have hnodup := (pairwise_columnSet
      (properties.map PropertyColumn.column ++ keyColumns)).imp Nat.ne_of_lt
    rw [grow, place, Draft.enter_eq hnodup]
    cases checkLevel role.label _ owned (navigations.map Prod.fst) with
    | error e => rfl
    | ok _ =>
      simp only [Except.map, Except.mapError, ok_bind, Draft.push, List.push_toArray,
        List.size_toArray]
      -- The node is in the vector while the levels below it are appended, with nothing behind it
      -- yet.
      rw [growNavigations_eq ih rfl, List.length_append, List.length_singleton]
      cases placeNavigations nodes.length (depth + 1) navigations _ with
      | error e => rfl
      | ok result =>
        simp only [Except.map, Except.mapError, ok_bind, Placed.draft, List.append_assoc,
          List.cons_append, List.nil_append, Draft.patch_append, preorderAll_singleton]
        rfl

/-- **The arena of a description is its layout in one vector**, and fails as its layout does. -/
theorem LevelSpec.arena_eq (arithmetic : Arithmetic) (spec : LevelSpec) :
    spec.arena arithmetic =
      ((spec.layoutWith arithmetic).map Layout.arena).mapError .refused := by
  have hgrow := spec.grow_eq .root none 0 [] []
  rw [arena, layoutWith, hgrow]
  cases spec.place .root none 0 ⟨[].length, []⟩ with
  | error e => rfl
  | ok result =>
    obtain ⟨root, placed⟩ := result
    have hcolumns : (root.preorder.map Level.toNode).flatMap Node.columns =
        root.preorder.flatMap fun level => level.info.columns := List.flatMap_map _ _ _
    simp only [Except.map, Except.mapError, ok_bind, Placed.draft, List.nil_append,
      preorderAll_singleton, hcolumns]
    cases spec.continuation.find? fun column => column.path.isEmpty with
    | some column => rfl
    | none =>
      dsimp only
      cases arithmetic.widthOf (_ ++ _) <;> rfl

end QueryPlans
