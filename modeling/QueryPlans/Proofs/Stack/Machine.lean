import QueryPlans.Proofs.Layout.Numbering
import QueryPlans.Proofs.Stack.Path

/-!
# Proofs/Stack/Machine — the open elements as a stack that is read by index

A reader that keeps its open elements in a stack, with levels and navigations as indices, closes
elements from the top down, and a row descends from the root, one element a round.  Here every
index is looked up and every loop has a bound, and an index that is out of range and a loop that
goes on beyond its bound are faults (`OpenStack.Fault`).  Closing elements that are sound runs into
neither, and has the events of `closeAll` (`OpenStack.closeTo_append`).
-/

namespace QueryPlans

/-- The depth of the deepest level. -/
def Layout.depth (layout : Layout) : Nat :=
  layout.levels.foldr (fun level depth => max level.info.depth depth) 0

/-- An open element, its level and its navigation by index. -/
structure OpenElement where
  node : Nat
  row : Row
  /-- The position of the next navigation to open. -/
  navCursor : Nat
  /-- Whether the navigation there is open. -/
  navOpen : Bool

namespace OpenElement

/-- A frame by indices: its level is an entry of the preorder list. -/
def ofFrame (f : Frame) : OpenElement := ⟨f.level.index, f.row, f.visited, f.isOpen⟩

@[simp] theorem node_ofFrame (f : Frame) : (ofFrame f).node = f.level.index := rfl

@[simp] theorem row_ofFrame (f : Frame) : (ofFrame f).row = f.row := rfl

@[simp] theorem navCursor_ofFrame (f : Frame) : (ofFrame f).navCursor = f.visited := rfl

@[simp] theorem navOpen_ofFrame (f : Frame) : (ofFrame f).navOpen = f.isOpen := rfl

end OpenElement

/-- The open elements, the root at the bottom, and the events so far. -/
structure OpenStack where
  elements : List OpenElement
  events : List Event

namespace OpenStack

/-- What keeps the stack from taking a row. -/
inductive Fault where
  /-- An index is out of range. -/
  | outOfRange
  /-- A loop goes on beyond its bound. -/
  | unending
  | unread (error : ReadError)

/-- Several frames by indices, with the events so far. -/
def ofFrames (frames : List Frame) (events : List Event) : OpenStack :=
  ⟨frames.map .ofFrame, events⟩

/-- Changes the element at a depth, with some events. -/
def replace (s : OpenStack) (depth : Nat) (element : OpenElement) (events : List Event) :
    OpenStack := ⟨s.elements.set depth element, s.events ++ events⟩

/-- A look-up in a list, which faults outside of it. -/
def lookUp {α : Type} (xs : List α) (i : Nat) : Except Fault α :=
  match xs[i]? with
  | none => .error .outOfRange
  | some x => .ok x

/-- A failure of the row itself, as a fault. -/
def reading {α : Type} (x : Except ReadError α) : Except Fault α := x.mapError .unread

/-! ## Closing -/

section

variable (layout : Layout)

/-- The indices of the levels below a level. -/
def childIndices (node : Nat) : Except Fault (List Nat) := do
  let level ← lookUp layout.levels node
  return level.children.map Level.index

/-- Ends the open navigation of the element at a depth. -/
def endNavigation (depth : Nat) (s : OpenStack) : Except Fault OpenStack := do
  let element ← lookUp s.elements depth
  if element.navOpen then
    let children ← childIndices layout element.node
    let child ← lookUp children element.navCursor
    let ended := { element with navCursor := element.navCursor + 1, navOpen := false }
    return s.replace depth ended [.endResource child]
  else return s

/-- Closes what is above the element at a depth, and then its open navigation. -/
def closeNavigation (closeTo : Nat → OpenStack → Except Fault OpenStack) (depth : Nat)
    (s : OpenStack) : Except Fault OpenStack := do
  endNavigation layout depth (← closeTo (depth + 1) s)

/-- The events of a number of navigations without elements, from a position on. -/
def emptyFrom (children : List Nat) : Nat → Nat → Except Fault (List Event)
  | _, 0 => return []
  | position, count + 1 => do
    let child ← lookUp children position
    let events ← emptyFrom children (position + 1) count
    return .startResource child :: .endResource child :: events

/-- Passes the navigations of the element at a depth that come before a position. -/
def skipNavigations (depth position : Nat) (s : OpenStack) : Except Fault OpenStack := do
  let element ← lookUp s.elements depth
  let children ← childIndices layout element.node
  let count := position - element.navCursor
  let events ← emptyFrom children element.navCursor count
  return s.replace depth { element with navCursor := element.navCursor + count } events

/-- Takes the element at the top off the stack. -/
def pop (s : OpenStack) : OpenStack :=
  match s.elements.getLast? with
  | none => s
  | some element => ⟨s.elements.dropLast, s.events ++ [.endElement element.node]⟩

/-- The first argument bounds the number of elements that are closed. -/
def closeWithin : Nat → Nat → OpenStack → Except Fault OpenStack
  | bound, len, s =>
    if len < s.elements.length then
      match bound with
      | 0 => throw .unending
      | bound + 1 => do
        let depth := s.elements.length - 1
        let s ← closeNavigation layout (closeWithin bound) depth s
        let element ← lookUp s.elements depth
        let children ← childIndices layout element.node
        let s ← skipNavigations layout depth children.length s
        closeWithin bound len s.pop
    else return s

/-- **Closes elements** from the top down until a number of them is left. -/
def closeTo (len : Nat) (s : OpenStack) : Except Fault OpenStack :=
  closeWithin layout s.elements.length len s

end

/-! ## Rows -/

section

variable (layout : Layout) (row : Row)

/-- Opens an element at the top of the stack. -/
def openElement (index : Nat) (s : OpenStack) : Except Fault OpenStack := do
  let level ← lookUp layout.levels index
  let properties ← reading (level.info.read row)
  return ⟨s.elements ++ [⟨index, row, 0, false⟩], s.events ++ [.startElement index properties]⟩

/-- The position of the first navigation with values on the row. -/
def findActive : Nat → List Nat → Except Fault (Option Nat)
  | _, [] => return none
  | position, index :: rest => do
    let child ← lookUp layout.levels index
    if ← reading (child.info.isSubtreePresent row) then return some position
    else findActive (position + 1) rest

/-- Opens the navigation at a position of the element at a depth, whose level is given. -/
def openNavigation (index depth position : Nat) (s : OpenStack) : Except Fault OpenStack := do
  let s ← closeNavigation layout (closeTo layout) depth s
  let s ← skipNavigations layout depth position s
  let element ← lookUp s.elements depth
  return s.replace depth { element with navOpen := true } [.startResource index]

/-- Comes to the open navigation of the element at a depth: the element that is open there goes on,
or another one opens. -/
def enterOpen (index : Nat) (child : Level) (depth : Nat) (s : OpenStack) :
    Except Fault OpenStack := do
  let former := s.elements[depth + 1]?
  let same ← match former with
    | none => pure false
    | some inner => reading (child.info.sameEntity inner.row row)
  if same then return s
  else if former.isSome && child.info.role.isSingle then
    throw (.unread (.secondEntity child.label))
  else openElement layout row index (← closeTo layout (depth + 1) s)

/-- Comes to a navigation of the element at a depth, unless it is over or the row does not show its
level. -/
def enterNavigation (depth position : Nat) (s : OpenStack) : Except Fault OpenStack := do
  let element ← lookUp s.elements depth
  let children ← childIndices layout element.node
  let index ← lookUp children position
  let child ← lookUp layout.levels index
  if !(← reading (child.info.isPresent row)) then throw (.unread (.entityAbsent child.label))
  else if position < element.navCursor then throw (.unread (.navigationResumed child.label))
  else if element.navOpen && position == element.navCursor then
    enterOpen layout row index child depth s
  else openElement layout row index (← openNavigation layout index depth position s)

/-- Goes down from the element at a depth, one element a round; the first argument bounds the
number of rounds. -/
def descend : Nat → Nat → OpenStack → Except Fault OpenStack
  | 0, _, _ => throw .unending
  | rounds + 1, depth, s => do
    let element ← lookUp s.elements depth
    let children ← childIndices layout element.node
    let active ← findActive layout row 0 children
    active.elim (return s) fun position => do
      descend rounds (depth + 1) (← enterNavigation layout row depth position s)

/-- **A row comes to the stack.**  No more rounds are made than the layout has depths. -/
def onRow (s : OpenStack) : Except Fault OpenStack := do
  let root ← lookUp layout.levels 0
  if !(← reading (root.info.isPresent row)) then throw (.unread .rootAbsent)
  else
    let same ← match s.elements.head? with
      | none => pure false
      | some element => reading (root.info.sameEntity element.row row)
    let s ← if same then pure s else openElement layout row 0 (← closeTo layout 0 s)
    descend layout row (layout.depth + 1) 0 s

end

end OpenStack

/-! ## Levels by index -/

/-- **A layout that is read by index**: every level stands at its index, the root at the first, and
what lies below a level is one deeper. -/
structure Layout.IsIndexed (layout : Layout) : Prop where
  getElem?_index : ∀ level ∈ layout.levels, layout.levels[level.index]? = some level
  index_root : layout.root.index = 0
  depth_root : layout.root.info.depth = 0
  depth_child : ∀ level ∈ layout.levels, ∀ child ∈ level.children,
    child.info.depth = level.info.depth + 1

/-- The index of a level is its position, for every layout of a specification. -/
theorem LevelSpec.isIndexed_of_layout {spec : LevelSpec} {layout : Layout}
    (h : spec.layout = .ok layout) : layout.IsIndexed := by
  have hlaysOut := LevelSpec.laysOut_of_layout h
  refine ⟨fun _ => hlaysOut.getElem?_index, ?_, (hlaysOut.root _ List.mem_cons_self).2.1,
    fun _ hlevel _ hchild => (hlaysOut.children_levels hlevel hchild).2⟩
  obtain ⟨⟨info, children⟩, continuation, width⟩ := layout
  exact hlaysOut.index_getElem (Nat.succ_pos _)

namespace Layout

variable {layout : Layout} {level : Level}

/-- No level is deeper than the layout. -/
theorem depth_le (hlevel : level ∈ layout.levels) : level.info.depth ≤ layout.depth := by
  rw [depth]
  generalize layout.levels = levels at hlevel
  induction levels with
  | nil => cases hlevel
  | cons first rest ih =>
    rcases List.mem_cons.1 hlevel with rfl | hrest
    · exact Nat.le_max_left _ _
    · exact Nat.le_trans (ih hrest) (Nat.le_max_right _ _)

end Layout

/-! ## Frames by index -/

namespace Frame

/-- The element once its open navigation has ended. -/
def ended (f : Frame) : Frame := { f with visited := f.settled, isOpen := false }

/-- The element with the navigations before a position over. -/
def passed (f : Frame) (position : Nat) : Frame := { f with visited := position }

end Frame

namespace OpenStack

variable {layout : Layout} {level child : Level} {row : Row} {f g : Frame}
  {above deeper frames keep : List Frame} {events more : List Event} {position count : Nat}

theorem lookUp_eq_ok {α : Type} {xs : List α} {i : Nat} {x : α} (h : xs[i]? = some x) :
    lookUp xs i = .ok x := by rw [lookUp, h]

/-- The element behind those above. -/
theorem lookUp_elements : lookUp (ofFrames (above ++ f :: deeper) events).elements above.length =
    .ok (.ofFrame f) := lookUp_eq_ok (by simp [ofFrames])

/-- The element at a depth is replaced as the frame is. -/
theorem replace_ofFrames : (ofFrames (above ++ f :: deeper) events).replace above.length
    (.ofFrame g) more = ofFrames (above ++ g :: deeper) (events ++ more) := by
  simp [ofFrames, replace]

/-- The deepest element is closed as the deepest frame is. -/
theorem pop_ofFrames : (ofFrames (above ++ [f]) events).pop =
    ofFrames above (events ++ [.endElement f.level.index]) := by
  simp [ofFrames, pop]

/-- Children are found by the indices that their level has. -/
theorem childIndices_eq (h : layout.IsIndexed) (hlevel : level ∈ layout.levels) :
    childIndices layout level.index = .ok (level.children.map Level.index) := by
  rw [childIndices, lookUp_eq_ok (h.getElem?_index level hlevel), ok_bind, pure_eq_ok]

/-- A child of a level is found at its position among the indices. -/
theorem lookUp_children (hchild : level.children[position]? = some child) :
    lookUp (level.children.map Level.index) position = .ok child.index :=
  lookUp_eq_ok (by rw [List.getElem?_map, hchild, Option.map_some])

/-! ## Closing elements -/

/-- Ending what an element has open is done in place. -/
theorem endNavigation_eq (h : layout.IsIndexed) (hlevel : f.level ∈ layout.levels)
    (hsettled : f.settled ≤ f.level.children.length) :
    endNavigation layout above.length (ofFrames (above ++ f :: deeper) events) =
      .ok (ofFrames (above ++ f.ended :: deeper) (events ++ f.endOpen)) := by
  rw [endNavigation, lookUp_elements, ok_bind]
  obtain ⟨level, row, visited, isOpen⟩ := f
  cases isOpen with
  | false =>
    have hnone : Frame.endOpen ⟨level, row, visited, false⟩ = [] := rfl
    rw [hnone, List.append_nil]
    rfl
  | true =>
    have hlt : visited < level.children.length := hsettled
    have hchild : level.children[visited]? = some level.children[visited] :=
      List.getElem?_eq_getElem hlt
    have hend : Frame.endOpen ⟨level, row, visited, true⟩ =
        [.endResource level.children[visited].index] := by
      rw [Frame.endOpen, if_pos rfl, hchild]
      rfl
    have hindices := childIndices_eq h hlevel
    simp only [OpenElement.ofFrame, if_true, hindices, ok_bind, lookUp_children hchild, hend]
    exact congrArg Except.ok (replace_ofFrames (g := Frame.ended ⟨level, row, visited, true⟩))

/-- Navigations that are passed are empty resources. -/
theorem emptyFrom_eq (hcount : position + count ≤ level.children.length) :
    emptyFrom (level.children.map Level.index) position count =
      .ok (emptyResources ((level.children.take (position + count)).drop position)) := by
  induction count generalizing position with
  | zero =>
    have hnone : (level.children.take (position + 0)).drop position = [] :=
      List.drop_eq_nil_of_le (List.length_take_le ..)
    rw [hnone]
    rfl
  | succ count ih =>
    have hsum : position + (count + 1) = position + 1 + count := by omega
    rw [hsum] at hcount ⊢
    have hlt : position < (level.children.take (position + 1 + count)).length := by
      rw [List.length_take]
      omega
    have hchild := List.getElem?_eq_getElem (l := level.children) (i := position) (by omega)
    rw [emptyFrom, lookUp_children hchild, ok_bind, ih hcount, ok_bind,
      List.drop_eq_getElem_cons hlt, List.getElem_take]
    rfl

/-- Navigations without a row are passed over up to the one that is entered. -/
theorem skipNavigations_eq (h : layout.IsIndexed) (hlevel : f.level ∈ layout.levels)
    (hvisited : f.visited ≤ position) (hposition : position ≤ f.level.children.length) :
    skipNavigations layout above.length position (ofFrames (above ++ f :: deeper) events) =
      .ok (ofFrames (above ++ f.passed position :: deeper)
        (events ++ emptyResources ((f.level.children.take position).drop f.visited))) := by
  have hcount : f.visited + (position - f.visited) = position := Nat.add_sub_of_le hvisited
  have hempty : emptyFrom (f.level.children.map Level.index) f.visited (position - f.visited) =
      .ok (emptyResources _) := emptyFrom_eq (hcount.trans_le hposition)
  rw [skipNavigations, lookUp_elements, ok_bind]
  simp only [OpenElement.ofFrame, childIndices_eq h hlevel, ok_bind, hempty, hcount]
  exact congrArg Except.ok (replace_ofFrames (g := f.passed position))

/-- Nothing is closed where no more is open. -/
theorem closeWithin_of_le {bound len : Nat} {s : OpenStack} (hlen : s.elements.length ≤ len) :
    closeWithin layout bound len s = .ok s := by
  rw [closeWithin.eq_def]
  exact if_neg (Nat.not_lt.2 hlen)

/-- The element at the top is closed. -/
theorem closeWithin_top (h : layout.IsIndexed) (hlevel : f.level ∈ layout.levels)
    (hsound : f.IsSound) {bound len : Nat} (hlen : len ≤ above.length) :
    closeWithin layout (bound + 1) len (ofFrames (above ++ [f]) events) =
      closeWithin layout bound len (ofFrames above (events ++ f.close)) := by
  have hlength : (ofFrames (above ++ [f]) events).elements.length = above.length + 1 := by
    simp [ofFrames]
  have hended : f.ended.level ∈ layout.levels := hlevel
  have hsettled : f.ended.visited ≤ f.ended.level.children.length := hsound.settled_le
  have hclose : events ++ f.endOpen ++ emptyResources ((f.level.children.take
      f.level.children.length).drop f.settled) ++ [.endElement f.level.index] =
      events ++ f.close := by
    simp only [Frame.close, Frame.skipTo, List.append_assoc]
  rw [closeWithin.eq_def]
  dsimp only
  rw [hlength, if_pos (by omega), Nat.add_sub_cancel, closeNavigation,
    closeWithin_of_le hlength.le, ok_bind, endNavigation_eq h hlevel hsound.settled_le, ok_bind,
    lookUp_elements, ok_bind, OpenElement.node_ofFrame, childIndices_eq h hended, ok_bind,
    List.length_map, skipNavigations_eq h hended hsettled (Nat.le_refl _), ok_bind, pop_ofFrames]
  exact congrArg (fun closed => closeWithin layout bound len (ofFrames above closed)) hclose

/-- The deepest frame is closed first. -/
theorem closeAll_concat (frames : List Frame) (f : Frame) :
    closeAll (frames ++ [f]) = f.close ++ closeAll frames := by
  induction frames with
  | nil => exact (List.append_nil _).symm
  | cons first rest ih => rw [List.cons_append, closeAll, ih, closeAll, List.append_assoc]

/-- **Elements are closed** from the top down, with the events of each. -/
theorem closeWithin_append (h : layout.IsIndexed) {bound : Nat} (hbound : frames.length ≤ bound)
    (hlevels : ∀ f ∈ frames, f.level ∈ layout.levels) (hsound : ∀ f ∈ frames, f.IsSound) :
    closeWithin layout bound keep.length (ofFrames (keep ++ frames) events) =
      .ok (ofFrames keep (events ++ closeAll frames)) := by
  induction frames using List.reverseRecOn generalizing bound events with
  | nil =>
    rw [closeAll, List.append_nil, List.append_nil]
    exact closeWithin_of_le (by simp [ofFrames])
  | append_singleton frames f ih =>
    rw [List.length_append, List.length_singleton] at hbound
    obtain ⟨bound, rfl⟩ := Nat.exists_eq_add_of_le' (Nat.le_of_add_left_le hbound)
    rw [List.forall_mem_append, List.forall_mem_singleton] at hlevels hsound
    rw [← List.append_assoc, closeWithin_top h hlevels.2 hsound.2 (by simp),
      ih (by omega) hlevels.1 hsound.1, closeAll_concat, List.append_assoc]

/-- **Elements below a depth are closed**, the deepest first, with their navigations. -/
theorem closeTo_append (keep : List Frame) (h : layout.IsIndexed)
    (hlevels : ∀ f ∈ frames, f.level ∈ layout.levels) (hsound : ∀ f ∈ frames, f.IsSound) :
    closeTo layout keep.length (ofFrames (keep ++ frames) events) =
      .ok (ofFrames keep (events ++ closeAll frames)) :=
  closeWithin_append h (by simp [ofFrames]) hlevels hsound

/-- What is above an element is closed. -/
theorem closeTo_succ (h : layout.IsIndexed) (hlevels : ∀ g ∈ deeper, g.level ∈ layout.levels)
    (hsound : ∀ g ∈ deeper, g.IsSound) :
    closeTo layout (above.length + 1) (ofFrames (above ++ f :: deeper) events) =
      .ok (ofFrames (above ++ [f]) (events ++ closeAll deeper)) := by
  have hlength : above.length + 1 = (above ++ [f]).length := by simp
  have happend : above ++ f :: deeper = (above ++ [f]) ++ deeper := List.append_cons ..
  rw [hlength, happend]
  exact closeTo_append _ h hlevels hsound

end OpenStack

end QueryPlans
