import QueryPlans.Proofs.Stack.Machine

/-!
# Proofs/Stack/Descent — rows on a stack that is read by index

A row that comes to the stack descends from its root, in every round to the first navigation with
values on it.  It does there what it does where it is placed among the open elements
(`OpenStack.Descends`), and the rounds are no more than there are depths below the level that it has
come to (`OpenStack.descends`).  So the stack takes every row as it is placed, with the same events
and the same faults, and no index is out of range; between two reads it is a consistent path
(`EventReader.stack_consistent`).
-/

namespace QueryPlans

section

variable {row : Row} {child : Level} {rest : List Level} {f inner : Frame} {deeper : List Frame}
  {position : Nat}

/-- What a row does at a navigation that is not open yet. -/
theorem placeAmong_closed (hsubtree : child.info.isSubtreePresent row = .ok true)
    (hpresent : child.info.isPresent row = .ok true) (hsettled : f.settled ≤ position) :
    placeAmong row (child :: rest) position f deeper = (do
      let properties ← child.info.read row
      let p ← child.place row (.ofRow child row) []
      return (closeAll deeper ++ (f.skipTo position ++ [.startResource child.index]) ++
        .startElement child.index properties :: p.1, f.enter position :: p.2)) := by
  obtain ⟨hvisited, hcontinues⟩ := Frame.settled_le_iff.1 hsettled
  rw [placeAmong, hsubtree, ok_bind, hpresent, ok_bind]
  simp only [hvisited, hcontinues, Bool.not_true, Bool.false_eq_true, if_false, pure_eq_ok, ok_bind,
    Option.isSome_none, Bool.false_and]

/-- What a row does at the navigation that is open. -/
theorem placeAmong_open (hsubtree : child.info.isSubtreePresent row = .ok true)
    (hpresent : child.info.isPresent row = .ok true) (hopen : f.isOpen = true)
    (hvisited : f.visited = position) :
    placeAmong row (child :: rest) position f (inner :: deeper) = (do
      if ← child.info.sameEntity inner.row row then
        let p ← child.place row inner deeper
        return (p.1, f :: p.2)
      else if child.info.role.isSingle then throw (.secondEntity child.label)
      else
        let properties ← child.info.read row
        let p ← child.place row (.ofRow child row) []
        return (closeAll (inner :: deeper) ++ .startElement child.index properties :: p.1,
          f :: p.2)) := by
  have hcontinues : (f.isOpen && position == f.visited) = true := by simp [hopen, hvisited]
  have hresumed : ¬ position < f.visited := by omega
  rw [placeAmong, hsubtree, ok_bind, hpresent, ok_bind]
  simp only [hresumed, hcontinues, Bool.not_true, Bool.false_eq_true, if_false, if_true,
    List.head?_cons, List.tail_cons]
  cases child.info.sameEntity inner.row row with
  | error e => rfl
  | ok same =>
    cases same with
    | true => rfl
    | false =>
      rw [Frame.enter_eq_self hopen hvisited]
      cases child.info.role.isSingle with
      | true => rfl
      | false => simp

end

namespace OpenStack

variable {layout : Layout} {level child : Level} {row : Row} {f inner : Frame}
  {above deeper frames keep : List Frame} {events more : List Event} {position rounds : Nat}
  {rest : List Level}

/-! ## Outcomes -/

/-- **What a row comes to on the stack** that is placed among the elements below others. -/
def outcome (above : List Frame) (events : List Event)
    (placed : Except ReadError (List Event × List Frame)) : Except Fault OpenStack :=
  (reading placed).map fun p => ofFrames (above ++ p.2) (events ++ p.1)

@[simp] theorem outcome_error (e : ReadError) :
    outcome above events (.error e) = .error (.unread e) := rfl

@[simp] theorem outcome_ok (p : List Event × List Frame) :
    outcome above events (.ok p) = .ok (ofFrames (above ++ p.2) (events ++ p.1)) := rfl

@[simp] theorem reading_error {α : Type} (e : ReadError) :
    reading (.error e : Except ReadError α) = .error (.unread e) := rfl

@[simp] theorem reading_ok {α : Type} (a : α) : reading (.ok a) = .ok a := rfl

/-! ## Elements that open -/

/-- **A row descends from an element** as it is placed below it. -/
def Descends (layout : Layout) (row : Row) (rounds : Nat) (level : Level) : Prop :=
  ∀ above f deeper events, level.Nested (f :: deeper) → (∀ g ∈ f :: deeper, g.IsSound) →
    descend layout row rounds above.length (ofFrames (above ++ f :: deeper) events) =
      outcome above events (level.place row f deeper)

/-- **An element is opened by its index** as by its level. -/
theorem openElement_eq (h : layout.IsIndexed) (hlevel : level ∈ layout.levels) :
    openElement layout row level.index (ofFrames keep events) =
      (reading (level.info.read row)).map fun properties =>
        ofFrames (keep ++ [.ofRow level row])
          (events ++ [.startElement level.index properties]) := by
  rw [openElement, lookUp_eq_ok (h.getElem?_index level hlevel), ok_bind]
  cases level.info.read row with
  | error e => rfl
  | ok properties => simp [ofFrames, OpenElement.ofFrame, Frame.ofRow, Except.map]

/-- An element opens at the top, and the row descends from it. -/
theorem Descends.start (hdescends : Descends layout row rounds level) (keep : List Frame)
    (events : List Event) (h : layout.IsIndexed) (hlevel : level ∈ layout.levels)
    (hpresent : level.info.isPresent row = .ok true) :
    (do
      let s ← openElement layout row level.index (ofFrames keep events)
      descend layout row rounds keep.length s) =
      outcome keep events (do
        let properties ← level.info.read row
        let p ← level.place row (.ofRow level row) []
        return (.startElement level.index properties :: p.1, p.2)) := by
  rw [openElement_eq h hlevel]
  cases level.info.read row with
  | error e => rfl
  | ok properties =>
    have hnew : ∀ g ∈ [Frame.ofRow level row], g.IsSound :=
      List.forall_mem_singleton.2 (Frame.isSound_ofRow hpresent)
    rw [reading_ok, Except.map, ok_bind, ok_bind, hdescends keep _ [] _ (.ofRow level row) hnew]
    cases level.place row (.ofRow level row) [] with
    | error e => rfl
    | ok p => simp

/-- An element opens below another, and the row descends from it. -/
theorem Descends.startBelow (hdescends : Descends layout row rounds child) (h : layout.IsIndexed)
    (hchild : child ∈ layout.levels) (hpresent : child.info.isPresent row = .ok true) :
    (do
      let s ← openElement layout row child.index (ofFrames (above ++ [f]) (events ++ more))
      descend layout row rounds (above.length + 1) s) =
      outcome above events (do
        let properties ← child.info.read row
        let p ← child.place row (.ofRow child row) []
        return (more ++ .startElement child.index properties :: p.1, f :: p.2)) := by
  have hlength : above.length + 1 = (above ++ [f]).length := by simp
  rw [hlength, hdescends.start _ _ h hchild hpresent]
  cases child.info.read row with
  | error e => rfl
  | ok properties =>
    cases child.place row (.ofRow child row) [] with
    | error e => simp
    | ok p => simp

/-! ## One round -/

/-- The navigation at a position opens, with all that ends before it. -/
theorem openNavigation_eq (h : layout.IsIndexed) (hlevel : f.level ∈ layout.levels)
    (hlevels : ∀ g ∈ deeper, g.level ∈ layout.levels) (hsound : ∀ g ∈ f :: deeper, g.IsSound)
    (hsettled : f.settled ≤ position) (hposition : position ≤ f.level.children.length) :
    openNavigation layout child.index above.length position
        (ofFrames (above ++ f :: deeper) events) =
      .ok (ofFrames (above ++ [f.enter position]) (events ++ (closeAll deeper ++
        (f.skipTo position ++ [.startResource child.index])))) := by
  rw [List.forall_mem_cons] at hsound
  have hended : f.ended.level ∈ layout.levels := hlevel
  have hvisited : f.ended.visited ≤ position := hsettled
  rw [openNavigation, closeNavigation, closeTo_succ h hlevels hsound.2, ok_bind,
    endNavigation_eq h hlevel hsound.1.settled_le, ok_bind,
    skipNavigations_eq h hended hvisited hposition, ok_bind, lookUp_elements, ok_bind]
  refine (congrArg Except.ok (replace_ofFrames (g := f.enter position))).trans ?_
  simp only [Frame.skipTo, List.append_assoc]
  rfl

/-- A row goes on from the open navigation of an element as it is placed there. -/
theorem Descends.enterOpen (hdescends : Descends layout row rounds child) (h : layout.IsIndexed)
    (hlevels : ∀ g ∈ inner :: deeper, g.level ∈ layout.levels) (hchild : child ∈ layout.levels)
    (hnested : child.Nested (inner :: deeper)) (hsound : ∀ g ∈ inner :: deeper, g.IsSound)
    (hopen : f.isOpen = true) (hvisited : f.visited = position)
    (hsubtree : child.info.isSubtreePresent row = .ok true)
    (hpresent : child.info.isPresent row = .ok true) :
    (do
      let s ← OpenStack.enterOpen layout row child.index child above.length
        (ofFrames (above ++ f :: inner :: deeper) events)
      descend layout row rounds (above.length + 1) s) =
      outcome above events (placeAmong row (child :: rest) position f (inner :: deeper)) := by
  have hformer : (ofFrames (above ++ f :: inner :: deeper) events).elements[above.length + 1]? =
      some (.ofFrame inner) := by simp [ofFrames]
  rw [OpenStack.enterOpen, hformer, placeAmong_open hsubtree hpresent hopen hvisited]
  dsimp only [OpenElement.row_ofFrame]
  cases child.info.sameEntity inner.row row with
  | error e => rfl
  | ok same =>
    cases same with
    | true =>
      have hbelow := hdescends (above ++ [f]) inner deeper events hnested hsound
      rw [List.length_append, List.length_singleton, List.append_assoc, List.singleton_append]
        at hbelow
      simp only [reading_ok, ok_bind, if_true, pure_eq_ok, hbelow]
      cases child.place row inner deeper with
      | error e => rfl
      | ok p => simp
    | false =>
      cases child.info.role.isSingle with
      | true => rfl
      | false =>
        simp only [reading_ok, ok_bind, Bool.false_eq_true, if_false, Option.isSome_some,
          Bool.and_false, closeTo_succ h hlevels hsound]
        exact hdescends.startBelow h hchild hpresent

/-- **A row goes on from a navigation** of an element as it is placed there. -/
theorem Descends.enter (hdescends : Descends layout row rounds child) (h : layout.IsIndexed)
    (hlevels : ∀ g ∈ f :: deeper, g.level ∈ layout.levels)
    (hnested : f.level.Nested (f :: deeper)) (hsound : ∀ g ∈ f :: deeper, g.IsSound)
    (hget : f.level.children[position]? = some child)
    (hsubtree : child.info.isSubtreePresent row = .ok true) :
    (do
      let s ← enterNavigation layout row above.length position
        (ofFrames (above ++ f :: deeper) events)
      descend layout row rounds (above.length + 1) s) =
      outcome above events (placeAmong row (child :: rest) position f deeper) := by
  rw [List.forall_mem_cons] at hlevels
  have hchild : child ∈ layout.levels :=
    Layout.mem_levels_of_child hlevels.1 (List.mem_of_getElem? hget)
  rw [enterNavigation, lookUp_elements, ok_bind, OpenElement.node_ofFrame,
    childIndices_eq h hlevels.1, ok_bind, lookUp_children hget, ok_bind,
    lookUp_eq_ok (h.getElem?_index child hchild), ok_bind]
  cases hpresent : child.info.isPresent row with
  | error e =>
    rw [placeAmong, hsubtree, hpresent]
    rfl
  | ok present =>
    cases present with
    | false =>
      rw [placeAmong, hsubtree, hpresent]
      rfl
    | true =>
      simp only [reading_ok, ok_bind, Bool.not_true, Bool.false_eq_true, if_false]
      -- As the recursion does it: behind the child, within it, or at a new one.
      by_cases hresumed : position < (OpenElement.ofFrame f).navCursor
      · have hvisited : position < f.visited := hresumed
        rw [if_pos hresumed, placeAmong, hsubtree, hpresent]
        simp [hvisited]
      · rw [if_neg hresumed]
        cases hcontinues : (OpenElement.ofFrame f).navOpen &&
          position == (OpenElement.ofFrame f).navCursor with
        | true =>
          obtain ⟨hopen, hvisited⟩ := Bool.and_eq_true_iff.1 hcontinues
          obtain rfl : position = f.visited := beq_iff_eq.1 hvisited
          have hinside := hnested.tail hopen hget
          obtain ⟨inner, deeper, rfl⟩ := hinside.exists_cons
          rw [if_pos rfl]
          exact hdescends.enterOpen h hlevels.2 hchild hinside (List.forall_mem_cons.1 hsound).2
            hopen rfl hsubtree hpresent
        | false =>
          have hsettled : f.settled ≤ position := Frame.settled_le_iff.2 ⟨hresumed, hcontinues⟩
          have hposition : position ≤ f.level.children.length :=
            (List.getElem?_eq_some_iff.1 hget).1.le
          rw [if_neg Bool.false_ne_true, openNavigation_eq h hlevels.1 hlevels.2 hsound hsettled
            hposition, ok_bind, placeAmong_closed hsubtree hpresent hsettled]
          exact hdescends.startBelow h hchild hpresent

/-! ## All rounds -/

/-- A row looks for its navigation among those of an element, from one on, as it is placed among
them. -/
theorem findActive_elim (h : layout.IsIndexed) (pre : List Level)
    (hlevels : ∀ g ∈ f :: deeper, g.level ∈ layout.levels)
    (hnested : f.level.Nested (f :: deeper)) (hsound : ∀ g ∈ f :: deeper, g.IsSound)
    (hchildren : f.level.children = pre ++ rest)
    (hdescends : ∀ child ∈ rest, Descends layout row rounds child) :
    (do
      let active ← findActive layout row pre.length (rest.map Level.index)
      active.elim (return ofFrames (above ++ f :: deeper) events) fun position => do
        descend layout row rounds (above.length + 1) (← enterNavigation layout row above.length
          position (ofFrames (above ++ f :: deeper) events))) =
      outcome above events (placeAmong row rest pre.length f deeper) := by
  -- The loop and the recursion both walk the children from a position on; what is in front stays.
  induction rest generalizing pre with
  | nil => simp [findActive, placeAmong]
  | cons child rest ih =>
    have hget : f.level.children[pre.length]? = some child := by simp [hchildren]
    have hchild : child ∈ layout.levels :=
      Layout.mem_levels_of_child (List.forall_mem_cons.1 hlevels).1 (List.mem_of_getElem? hget)
    rw [List.forall_mem_cons] at hdescends
    rw [List.map_cons, findActive, lookUp_eq_ok (h.getElem?_index child hchild), ok_bind]
    cases hsubtree : child.info.isSubtreePresent row with
    | error e =>
      rw [placeAmong, hsubtree]
      rfl
    | ok subtree =>
      cases subtree with
      | true => exact hdescends.1.enter h hlevels hnested hsound hget hsubtree
      | false =>
        have hbehind := ih (pre ++ [child]) (by simp [hchildren]) hdescends.2
        rw [List.length_append, List.length_singleton] at hbehind
        rw [placeAmong, hsubtree]
        exact hbehind

/-- **A row descends from every element** as it is placed below it, in no more rounds than there are
depths from its level on. -/
theorem descends (h : layout.IsIndexed) (hlevel : level ∈ layout.levels)
    (hrounds : layout.depth < rounds + level.info.depth) : Descends layout row rounds level := by
  induction level generalizing rounds with
  | mk info children ih =>
    intro above f deeper events hnested hsound
    have hdepth := Layout.depth_le hlevel
    obtain ⟨rounds, rfl⟩ : ∃ n, rounds = n + 1 := ⟨rounds - 1, by omega⟩
    have hbelow : ∀ child ∈ children, Descends layout row rounds child := by
      intro child hchild
      have hdeeper := h.depth_child _ hlevel child hchild
      exact ih child hchild (Layout.mem_levels_of_child hlevel hchild) (by omega)
    have hlevels : ∀ g ∈ f :: deeper, g.level ∈ layout.levels := fun g hg =>
      (Level.preorder_isInfix hlevel).subset (hnested.mem_preorder g hg)
    have hchildren : f.level.children = children := by
      rw [hnested.level_eq]
      rfl
    rw [← hnested.level_eq] at hnested
    rw [descend, lookUp_elements, ok_bind, OpenElement.node_ofFrame,
      childIndices_eq h (hlevels f List.mem_cons_self), ok_bind, hchildren, Level.place]
    exact findActive_elim h [] hlevels hnested hsound hchildren hbelow

/-! ## Rows at the top -/

/-- At the end of rows every element is closed. -/
theorem closeTo_zero (h : layout.IsIndexed) (hpath : layout.IsPath frames) :
    closeTo layout 0 (ofFrames frames events) = .ok (ofFrames [] (events ++ closeAll frames)) :=
  closeTo_append [] h hpath.mem_levels hpath.sound

/-- Another root element opens, and the row descends from it. -/
theorem Descends.startOver (hdescends : Descends layout row rounds layout.root)
    (events : List Event) (h : layout.IsIndexed) (hpath : layout.IsPath frames)
    (hpresent : layout.root.info.isPresent row = .ok true) :
    (do
      let s ← closeTo layout 0 (ofFrames frames events)
      let s ← openElement layout row 0 s
      descend layout row rounds 0 s) =
      outcome [] events (do
        let properties ← layout.root.info.read row
        let p ← layout.root.place row (.ofRow layout.root row) []
        return (closeAll frames ++ .startElement layout.root.index properties :: p.1, p.2)) := by
  have hstart := hdescends.start [] (events ++ closeAll frames) h (Level.mem_preorder_self _)
    hpresent
  rw [h.index_root, List.length_nil] at hstart
  rw [closeTo_zero h hpath, ok_bind, hstart]
  cases layout.root.info.read row with
  | error e => rfl
  | ok properties =>
    cases layout.root.place row (.ofRow layout.root row) [] with
    | error e => rfl
    | ok p => simp [h.index_root]

/-- **A row comes to the stack** as it is placed among the open elements. -/
theorem onRow_eq (h : layout.IsIndexed) (hpath : layout.IsPath frames) :
    onRow layout row (ofFrames frames events) =
      outcome [] events (layout.placeRow row frames) := by
  have hroot : layout.root ∈ layout.levels := Level.mem_preorder_self _
  have hlookUp : layout.levels[0]? = some layout.root :=
    h.index_root ▸ h.getElem?_index layout.root hroot
  have hdescends : Descends layout row (layout.depth + 1) layout.root :=
    descends h hroot (by omega)
  rw [onRow, lookUp_eq_ok hlookUp, ok_bind, Layout.placeRow]
  cases hpresent : layout.root.info.isPresent row with
  | error e => rfl
  | ok present =>
    cases present with
    | false => rfl
    | true =>
      have hstart := hdescends.startOver events h hpath hpresent
      cases frames with
      | nil => exact hstart
      | cons f deeper =>
        have hhead : (ofFrames (f :: deeper) events).elements.head? = some (.ofFrame f) := rfl
        rw [hhead]
        dsimp only [OpenElement.row_ofFrame]
        cases layout.root.info.sameEntity f.row row with
        | error e => rfl
        | ok same =>
          cases same with
          | true => exact hdescends [] f deeper events hpath.root_nested hpath.sound
          | false => exact hstart

/-! ## Consistent stacks -/

/-- **A consistent stack**: a path from the root down, where each element but the last has the
navigation open that the next one belongs to. -/
structure IsConsistent (layout : Layout) (elements : List OpenElement) : Prop where
  root : ∀ element ∈ elements.head?, element.node = 0
  /-- What is above an element belongs to its open navigation. -/
  path : ∀ d outer inner, elements[d]? = some outer → elements[d + 1]? = some inner →
    outer.navOpen = true ∧ ∃ level, layout.levels[outer.node]? = some level ∧
      (level.children.map Level.index)[outer.navCursor]? = some inner.node
  top : ∀ element ∈ elements.getLast?, element.navOpen = false
  /-- No element is past its navigations, and its row shows its level. -/
  sound : ∀ element ∈ elements, ∃ level, layout.levels[element.node]? = some level ∧
    element.navCursor ≤ level.children.length ∧ level.info.isPresent element.row = .ok true

/-- Open elements that are a path are a consistent stack. -/
theorem isConsistent_of_isPath (h : layout.IsIndexed) (hpath : layout.IsPath frames) :
    IsConsistent layout (frames.map .ofFrame) where
  root := by
    cases frames with
    | nil => simp
    | cons f deeper =>
      rintro _ ⟨⟩
      rw [OpenElement.node_ofFrame, hpath.root_nested.level_eq, h.index_root]
  path d outer inner houter hinner := by
    rw [List.getElem?_map, Option.map_eq_some_iff] at houter hinner
    obtain ⟨f, hf, rfl⟩ := houter
    obtain ⟨g, hg, rfl⟩ := hinner
    obtain ⟨hopen, hchild⟩ := hpath.getElem?_succ hf hg
    refine ⟨hopen, f.level, ?_, ?_⟩
    · exact h.getElem?_index f.level (hpath.mem_levels f (List.mem_of_getElem? hf))
    · rw [OpenElement.navCursor_ofFrame, List.getElem?_map, hchild]
      rfl
  top element helement := by
    rw [List.getLast?_map, Option.mem_def, Option.map_eq_some_iff] at helement
    obtain ⟨f, hf, rfl⟩ := helement
    exact hpath.getLast?_closed f hf
  sound := by
    rw [List.forall_mem_map]
    intro f hf
    have hsound := hpath.sound f hf
    exact ⟨f.level, h.getElem?_index f.level (hpath.mem_levels f hf),
      f.visited_le_settled.trans hsound.settled_le, hsound.present⟩

/-- **A stack that stands for open elements**: it is consistent, and takes every row as it is placed
among them, so no index is out of range and no loop goes on beyond its bound. -/
structure StandsFor (layout : Layout) (frames : List Frame) : Prop where
  consistent : IsConsistent layout (frames.map .ofFrame)
  onRow : ∀ row events, OpenStack.onRow layout row (ofFrames frames events) =
    outcome [] events (layout.placeRow row frames)
  /-- A row is refused for nothing but what it is refused for among the open elements. -/
  unread : ∀ row events fault, OpenStack.onRow layout row (ofFrames frames events) = .error fault →
    ∃ e, fault = .unread e ∧ layout.placeRow row frames = .error e
  closeTo : ∀ events, OpenStack.closeTo layout 0 (ofFrames frames events) =
    .ok (ofFrames [] (events ++ closeAll frames))

/-- **Frames along a path stand for the elements that are open.** -/
theorem standsFor_of_isPath (h : layout.IsIndexed) (hpath : layout.IsPath frames) :
    StandsFor layout frames where
  consistent := isConsistent_of_isPath h hpath
  onRow _ _ := onRow_eq h hpath
  unread row events fault hfault := by
    rw [onRow_eq h hpath] at hfault
    cases hplace : layout.placeRow row frames with
    | error e =>
      rw [hplace] at hfault
      cases hfault
      exact ⟨e, rfl, rfl⟩
    | ok p =>
      rw [hplace] at hfault
      cases hfault
  closeTo _ := closeTo_zero h hpath

end OpenStack

/-- **The stack of a reader is always a consistent path, and every index is in range**, whatever is
done with the reader and whatever its source delivers: between two reads, and after each row that is
placed within one.  The descent of a row makes no more rounds than the layout has depths. -/
theorem EventReader.stack_consistent {spec : LevelSpec} {layout : Layout}
    (h : spec.layout = .ok layout) {source : Cursor}
    {answers : List (Option (Except ReadError Event))} {r : EventReader}
    (hplays : consumer.Plays (ofCursor layout source) answers r) :
    OpenStack.StandsFor layout r.frames ∧
    ∀ rows placed frames, Places layout.placeRow r.frames rows placed frames →
      OpenStack.StandsFor layout frames := by
  have hindexed := LevelSpec.isIndexed_of_layout h
  have hpath := (onPath_of_plays hplays).isPath
  exact ⟨OpenStack.standsFor_of_isPath hindexed hpath, fun _ _ _ hplaces =>
    OpenStack.standsFor_of_isPath hindexed (hpath.places hplaces)⟩

/-- A phone, and then a mail of the same person. -/
theorem EventReader.stack_consistent_contacts :
    let first : Row := ⟨[.int 1, .int 7, .null]⟩
    let next : Row := ⟨[.int 1, .null, .int 8]⟩
    let r := (consumer.call .read false
      (ofCursor .contacts (.ofDeliveries [.row first, .row next]))).2
    let opened : List Frame := [⟨Layout.contacts.root, first, 1, true⟩, .ofRow .mails next]
    LevelSpec.contacts.layout = .ok .contacts ∧
      r.frames.map OpenElement.ofFrame = [⟨0, first, 0, true⟩, ⟨1, first, 0, false⟩] ∧
      opened.map OpenElement.ofFrame = [⟨0, first, 1, true⟩, ⟨2, next, 0, false⟩] ∧
      OpenStack.StandsFor .contacts r.frames ∧ OpenStack.StandsFor .contacts opened := by
  intro first next r opened
  have hlayout : LevelSpec.contacts.layout = .ok .contacts := rfl
  have hconsistent := stack_consistent hlayout (consumer.plays_call (ofCursor .contacts
    (.ofDeliveries [.row first, .row next])) .read false)
  exact ⟨hlayout, rfl, rfl, hconsistent.1, hconsistent.2 [next] _ opened (.cons rfl .nil)⟩

end QueryPlans
