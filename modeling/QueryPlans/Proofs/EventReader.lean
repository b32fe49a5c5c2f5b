import QueryPlans.EventReader
import QueryPlans.Proofs.Cursor
import QueryPlans.Proofs.Except

/-!
# Proofs/EventReader — what rows do to the open elements

Rows are placed one after the other (`Places`).  A row below an open element passes the navigations
without values on it and comes to the first that has one.  There it continues the open entity, or
closes it and opens its own.  The reader returns the events of the rows it places, those of one row
before the next, and closes every element at the end of rows (`reads_of_places`).
-/

namespace QueryPlans

/-! ## Runs of rows -/

/-- A way to place a row among open elements. -/
abbrev Placement : Type := Row → List Frame → Except ReadError (List Event × List Frame)

/-- **Rows placed one after the other**, with all their events and what is open then. -/
inductive Places (place : Placement) : List Frame → List Row → List Event → List Frame → Prop
  | nil {frames : List Frame} : Places place frames [] [] frames
  | cons {row : Row} {rows : List Row} {events events' : List Event}
    {frames frames' frames'' : List Frame} (head : place row frames = .ok (events, frames'))
    (tail : Places place frames' rows events' frames'') :
    Places place frames (row :: rows) (events ++ events') frames''

theorem Places.append {place : Placement} {frames frames' frames'' : List Frame}
    {rows rows' : List Row} {events events' : List Event}
    (h : Places place frames rows events frames')
    (h' : Places place frames' rows' events' frames'') :
    Places place frames (rows ++ rows') (events ++ events') frames'' := by
  induction h with
  | nil => exact h'
  | cons head tail ih =>
    rw [List.append_assoc]
    exact .cons head (ih h')

theorem Places.append_eq {place : Placement} {frames frames' : List Frame} {rows : List Row}
    {events events' : List Event} (h : Places place frames rows events frames')
    (heq : events = events') : Places place frames rows events' frames' := heq ▸ h

/-- Places a row below an element of a level, the outermost of those that are open. -/
def Level.placement (level : Level) : Placement
  | _, [] => .ok ([], [])
  | row, f :: deeper => level.place row f deeper

/-! ## Frames -/

namespace Frame

@[simp] theorem settled_enter (f : Frame) (position : Nat) :
    (f.enter position).settled = position + 1 := rfl

@[simp] theorem level_enter (f : Frame) (position : Nat) : (f.enter position).level = f.level := rfl

/-- The navigations from a position on are neither over nor open. -/
theorem settled_le_iff {f : Frame} {position : Nat} : f.settled ≤ position ↔
    ¬ position < f.visited ∧ (f.isOpen && position == f.visited) = false := by
  rw [settled]
  cases f.isOpen with
  | false => simp
  | true =>
    rw [if_pos rfl, Bool.true_and, beq_eq_false_iff_ne]
    omega

theorem enter_eq_self {f : Frame} {position : Nat} (hopen : f.isOpen = true)
    (hvisited : f.visited = position) : f.enter position = f := by
  rw [enter, ← hvisited, ← hopen]

/-- A navigation that is skipped is an empty resource. -/
theorem skipTo_succ {f : Frame} {position : Nat} {child : Level} (hsettled : f.settled ≤ position)
    (hchild : f.level.children[position]? = some child) :
    f.skipTo (position + 1) =
      f.skipTo position ++ [.startResource child.index, .endResource child.index] := by
  have hlt : position < f.level.children.length := (List.getElem?_eq_some_iff.1 hchild).1
  have htake : (f.level.children.take (position + 1)).drop f.settled =
      (f.level.children.take position).drop f.settled ++ [child] := by
    rw [List.take_add_one, hchild, List.drop_append_of_le_length]
    · rfl
    · rw [List.length_take]
      omega
  rw [skipTo, skipTo, htake, emptyResources, emptyResources, List.flatMap_append, List.append_assoc]
  rfl

/-- What is skipped after entering a navigation is its end. -/
theorem skipTo_enter {f : Frame} {position : Nat} {child : Level}
    (hchild : f.level.children[position]? = some child) :
    (f.enter position).skipTo (position + 1) = [.endResource child.index] := by
  have hdrop : (f.level.children.take (position + 1)).drop (position + 1) = [] :=
    List.drop_eq_nil_of_le (List.length_take_le ..)
  rw [skipTo, settled_enter, level_enter, hdrop, endOpen, level_enter]
  change (f.level.children[position]?.toList.map _) ++ _ = _
  rw [hchild]
  rfl

end Frame

/-! ## One row below an element -/

/-- An element that was not closed, whatever else changed about it. -/
def Frame.Remains (f : Frame) (frames : List Frame) : Prop :=
  ∃ f' deeper, frames = f' :: deeper ∧ f'.row = f.row ∧ f'.level = f.level

/-- **What a row does at the navigation it comes to**: the open entity goes on, or another one
begins. -/
inductive PlacedAt (row : Row) (child : Level) (position : Nat) (f : Frame) :
    List Frame → List Event → List Frame → Prop
  | same {inner : Frame} {deeper frames : List Frame} {events : List Event}
    (hopen : f.isOpen = true) (hvisited : f.visited = position)
    (hsame : child.info.sameEntity inner.row row = .ok true)
    (hplace : child.place row inner deeper = .ok (events, frames)) :
    PlacedAt row child position f (inner :: deeper) events (f :: frames)
  | other {deeper frames : List Frame} {events : List Event} {properties : List (String × Scalar)}
    (hother : f.isOpen = true → f.visited = position → ∀ inner ∈ deeper.head?,
      child.info.sameEntity inner.row row = .ok false ∧ child.info.role.isSingle = false)
    (hread : child.info.read row = .ok properties)
    (hplace : child.place row (.ofRow child row) [] = .ok (events, frames)) :
    PlacedAt row child position f deeper
      (closeAll deeper ++
        (if f.isOpen && position == f.visited then []
          else f.skipTo position ++ [.startResource child.index]) ++
        .startElement child.index properties :: events) (f.enter position :: frames)

/-- Where no element of the level can go on, a new one is started. -/
theorem placedAt_of_start {row : Row} {child : Level} {position : Nat} {f : Frame}
    {deeper frames : List Frame} {events : List Event}
    (hother : f.isOpen = true → f.visited = position → ∀ inner ∈ deeper.head?,
      child.info.sameEntity inner.row row = .ok false ∧ child.info.role.isSingle = false)
    (h : (do
      let properties ← child.info.read row
      let below ← child.place row (.ofRow child row) []
      return (closeAll deeper ++ (if f.isOpen && position == f.visited then []
        else f.skipTo position ++ [.startResource child.index]) ++
        .startElement child.index properties :: below.1, f.enter position :: below.2)) =
      Except.ok (events, frames)) : PlacedAt row child position f deeper events frames := by
  obtain ⟨properties, hread, h⟩ := bind_eq_ok_iff.1 h
  obtain ⟨⟨below, opened⟩, hplace, h⟩ := bind_eq_ok_iff.1 h
  cases h
  exact .other hother hread hplace

/-- **What a row does at the first navigation** in sight: it is blank to it and passes it, or it is
placed there. -/
theorem placeAmong_cons {row : Row} {child : Level} {rest : List Level} {position : Nat} {f : Frame}
    {deeper frames : List Frame} {events : List Event}
    (h : placeAmong row (child :: rest) position f deeper = .ok (events, frames)) :
    (child.info.isSubtreePresent row = .ok false ∧
      placeAmong row rest (position + 1) f deeper = .ok (events, frames)) ∨
    (child.info.isSubtreePresent row = .ok true ∧ child.info.isPresent row = .ok true ∧
      f.visited ≤ position ∧ PlacedAt row child position f deeper events frames) := by
  rw [placeAmong] at h
  obtain ⟨subtree, hsubtree, h⟩ := bind_eq_ok_iff.1 h
  cases subtree with
  | false => exact .inl ⟨hsubtree, h⟩
  | true =>
    obtain ⟨present, hpresent, h⟩ := bind_eq_ok_iff.1 h
    cases present with
    | false => cases h
    | true =>
      by_cases hresumed : position < f.visited
      · simp [hresumed] at h
      · refine .inr ⟨hsubtree, hpresent, Nat.le_of_not_lt hresumed, ?_⟩
        simp only [hresumed, Bool.not_true, Bool.false_eq_true, if_false] at h
        -- The open entity of this very navigation, if there is one.
        generalize hformer : (if f.isOpen && position == f.visited then deeper.head? else none) =
          former at h
        cases former with
        | none =>
          refine placedAt_of_start (fun hopen hvisited inner hinner => ?_) h
          simp [hopen, hvisited, Option.mem_def.1 hinner] at hformer
        | some inner =>
          obtain ⟨hcontinues, hhead⟩ := Option.ite_none_right_eq_some.1 hformer
          rw [Bool.and_eq_true, beq_iff_eq] at hcontinues
          obtain ⟨deeper, rfl⟩ := List.head?_eq_some_iff.1 hhead
          obtain ⟨same, hsame, h⟩ := bind_eq_ok_iff.1 h
          cases same with
          | true =>
            obtain ⟨⟨below, opened⟩, hplace, h⟩ := bind_eq_ok_iff.1 h
            cases h
            exact .same hcontinues.1 hcontinues.2.symm hsame hplace
          | false =>
            cases hsingle : child.info.role.isSingle with
            | true => simp [hsingle] at h
            | false =>
              refine placedAt_of_start (fun _ _ inner' hinner' => ?_) (by simpa [hsingle] using h)
              obtain rfl := Option.some.inj hinner'
              exact ⟨hsame, hsingle⟩

/-- **A row leaves the element open** below which it is placed. -/
theorem Level.place_remains {level : Level} {row : Row} {f : Frame} {deeper frames : List Frame}
    {events : List Event} (h : level.place row f deeper = .ok (events, frames)) :
    f.Remains frames := by
  obtain ⟨info, children⟩ := level
  rw [Level.place] at h
  generalize 0 = position at h
  induction children generalizing position with
  | nil =>
    cases h
    exact ⟨f, deeper, rfl, rfl, rfl⟩
  | cons child rest ih =>
    rcases placeAmong_cons h with ⟨-, h⟩ | ⟨-, -, -, h⟩
    · exact ih _ h
    · cases h with
      | same _ _ _ _ => exact ⟨f, _, rfl, rfl, rfl⟩
      | other _ _ _ => exact ⟨f.enter position, _, rfl, rfl, rfl⟩

section

variable {row : Row} {f inner : Frame} {deeper : List Frame} {child : Level} {rest pre : List Level}
  {position : Nat}

/-- Navigations without values on the row are passed. -/
theorem placeAmong_append (hpre : ∀ other ∈ pre, other.info.isSubtreePresent row = .ok false) :
    placeAmong row (pre ++ rest) position f deeper =
      placeAmong row rest (position + pre.length) f deeper := by
  induction pre generalizing position with
  | nil => rfl
  | cons other pre ih =>
    rw [List.forall_mem_cons] at hpre
    rw [List.cons_append, placeAmong, hpre.1, ok_bind, List.length_cons, Nat.add_comm pre.length,
      ← Nat.add_assoc]
    exact ih hpre.2

/-- A row without any of the children leaves the frame as it is. -/
theorem placeAmong_blank (h : ∀ other ∈ rest, other.info.isSubtreePresent row = .ok false) :
    placeAmong row rest position f deeper = .ok ([], f :: deeper) := by
  have hpass : placeAmong row (rest ++ []) position f deeper = .ok ([], f :: deeper) :=
    placeAmong_append h
  rwa [List.append_nil] at hpass

/-- **A row that comes to a navigation** of an element, passing those before it. -/
structure Reaches (pre : List Level) (child : Level) (row : Row) : Prop where
  before : ∀ other ∈ pre, other.info.isSubtreePresent row = .ok false
  subtree : child.info.isSubtreePresent row = .ok true
  present : child.info.isPresent row = .ok true

variable {events : List Event} {frames : List Frame} {properties : List (String × Scalar)}

/-- **What a row does among children**: it shows none, or is placed at the first that it shows. -/
theorem placeAmong_cases {children : List Level}
    (h : placeAmong row children position f deeper = .ok (events, frames)) :
    ((∀ child ∈ children, child.info.isSubtreePresent row = .ok false) ∧ events = [] ∧
      frames = f :: deeper) ∨
    ∃ pre child rest, children = pre ++ child :: rest ∧ Reaches pre child row ∧
      f.visited ≤ position + pre.length ∧
      PlacedAt row child (position + pre.length) f deeper events frames := by
  induction children generalizing position with
  | nil =>
    cases h
    exact .inl ⟨by simp, rfl, rfl⟩
  | cons child rest ih =>
    rcases placeAmong_cons h with ⟨hblank, h⟩ | ⟨hsubtree, hpresent, hvisited, hplaced⟩
    · rcases ih h with
        ⟨hrest, hevents, hframes⟩ | ⟨pre, other, rest, rfl, hreaches, hvisited, hplaced⟩
      · exact .inl ⟨List.forall_mem_cons.2 ⟨hblank, hrest⟩, hevents, hframes⟩
      · have hposition : position + (child :: pre).length = position + 1 + pre.length := by
          rw [List.length_cons]
          omega
        refine .inr ⟨child :: pre, other, rest, rfl, ?_, hposition ▸ hvisited, hposition ▸ hplaced⟩
        exact ⟨List.forall_mem_cons.2 ⟨hblank, hreaches.before⟩, hreaches.subtree, hreaches.present⟩
    · exact .inr ⟨[], child, rest, rfl, ⟨by simp, hsubtree, hpresent⟩, hvisited, hplaced⟩

/-- **What a row does below an element**: it is blank to all navigations, or it comes to one that is
not over yet. -/
theorem Level.place_cases {info : LevelInfo} {children : List Level}
    (h : (Level.mk info children).place row f deeper = .ok (events, frames)) :
    ((∀ child ∈ children, child.info.isSubtreePresent row = .ok false) ∧ events = [] ∧
      frames = f :: deeper) ∨
    ∃ pre child rest, children = pre ++ child :: rest ∧ Reaches pre child row ∧
      f.visited ≤ pre.length ∧ PlacedAt row child pre.length f deeper events frames := by
  rw [Level.place] at h
  simpa only [Nat.zero_add] using placeAmong_cases h

/-- The open entity of the navigation goes on. -/
theorem place_same (info : LevelInfo) (h : Reaches pre child row) (hopen : f.isOpen = true)
    (hvisited : f.visited = pre.length) (hsame : child.info.sameEntity inner.row row = .ok true)
    (hplace : child.place row inner deeper = .ok (events, frames)) :
    (Level.mk info (pre ++ child :: rest)).place row f (inner :: deeper) =
      .ok (events, f :: frames) := by
  rw [Level.place, placeAmong_append h.before, placeAmong]
  simp [h.subtree, h.present, hopen, hvisited, hsame, hplace]

/-- Another entity of the open navigation begins. -/
theorem place_next (info : LevelInfo) (h : Reaches pre child row) (hopen : f.isOpen = true)
    (hvisited : f.visited = pre.length) (hcollection : child.info.role.isSingle = false)
    (hother : child.info.sameEntity inner.row row = .ok false)
    (hread : child.info.read row = .ok properties)
    (hplace : child.place row (.ofRow child row) [] = .ok (events, frames)) :
    (Level.mk info (pre ++ child :: rest)).place row f (inner :: deeper) =
      .ok (closeAll (inner :: deeper) ++ .startElement child.index properties :: events,
        f :: frames) := by
  rw [Level.place, placeAmong_append h.before, placeAmong]
  simp [h.subtree, h.present, hopen, hvisited, hcollection, hother, hread, hplace,
    Frame.enter_eq_self hopen hvisited]

/-- The first entity of a navigation begins. -/
theorem place_first (info : LevelInfo) (h : Reaches pre child row)
    (hsettled : f.settled ≤ pre.length) (hread : child.info.read row = .ok properties)
    (hplace : child.place row (.ofRow child row) [] = .ok (events, frames)) :
    (Level.mk info (pre ++ child :: rest)).place row f deeper =
      .ok (closeAll deeper ++ (f.skipTo pre.length ++ [.startResource child.index]) ++
        .startElement child.index properties :: events, f.enter pre.length :: frames) := by
  obtain ⟨hvisited, hcontinues⟩ := Frame.settled_le_iff.1 hsettled
  rw [Level.place, placeAmong_append h.before, placeAmong]
  simp [h.subtree, h.present, hvisited, hcontinues, hread, hplace]

end

/-! ## One row at the top -/

/-- **What a row does at the top**: the open root entity goes on, or another one begins. -/
inductive Layout.Placed (layout : Layout) (row : Row) :
    List Frame → List Event → List Frame → Prop
  | same {f : Frame} {deeper frames : List Frame} {events : List Event}
    (hsame : layout.root.info.sameEntity f.row row = .ok true)
    (hplace : layout.root.place row f deeper = .ok (events, frames)) :
    Placed layout row (f :: deeper) events frames
  | other {frames opened : List Frame} {events : List Event} {properties : List (String × Scalar)}
    (hother : ∀ f ∈ frames.head?, layout.root.info.sameEntity f.row row = .ok false)
    (hread : layout.root.info.read row = .ok properties)
    (hplace : layout.root.place row (.ofRow layout.root row) [] = .ok (events, opened)) :
    Placed layout row frames
      (closeAll frames ++ .startElement layout.root.index properties :: events) opened

/-- A row of another root entity closes what is open and starts an element. -/
theorem Layout.placed_of_start {layout : Layout} {row : Row} {frames opened : List Frame}
    {events : List Event}
    (hother : ∀ f ∈ frames.head?, layout.root.info.sameEntity f.row row = .ok false)
    (h : (do
      let properties ← layout.root.info.read row
      let below ← layout.root.place row (.ofRow layout.root row) []
      return (closeAll frames ++ .startElement layout.root.index properties :: below.1,
        below.2)) = Except.ok (events, opened)) : layout.Placed row frames events opened := by
  obtain ⟨properties, hread, h⟩ := bind_eq_ok_iff.1 h
  obtain ⟨⟨below, opened⟩, hplace, h⟩ := bind_eq_ok_iff.1 h
  cases h
  exact .other hother hread hplace

/-- **What placing a row does**: it must show the root, and goes on with it or starts it. -/
theorem Layout.placeRow_cases {layout : Layout} {row : Row} {frames frames' : List Frame}
    {events : List Event} (h : layout.placeRow row frames = .ok (events, frames')) :
    layout.root.info.isPresent row = .ok true ∧ layout.Placed row frames events frames' := by
  obtain ⟨present, hpresent, h⟩ := bind_eq_ok_iff.1 h
  cases present with
  | false => cases h
  | true =>
    refine ⟨hpresent, ?_⟩
    cases frames with
    | nil => exact placed_of_start (fun _ hf => by cases hf) h
    | cons f deeper =>
      obtain ⟨same, hsame, h⟩ := bind_eq_ok_iff.1 h
      cases same with
      | true => exact .same hsame h
      | false =>
        refine placed_of_start (fun f' hf' => ?_) h
        obtain rfl := Option.some.inj hf'
        exact hsame

/-! ## The reader -/

namespace EventReader

/-- **What a reader returns** up to the first end of rows or the first fault. -/
inductive Reads : EventReader → List Event → Option ReadError → Prop
  | last {r r' : EventReader} (h : r.read = (.ok .endOfRows, r')) : Reads r [.endOfRows] none
  | failed {r r' : EventReader} {e : ReadError} (h : r.read = (.error e, r')) : Reads r [] (some e)
  | event {r r' : EventReader} {event : Event} {rest : List Event} {fault : Option ReadError}
    (h : r.read = (.ok event, r')) (hne : event ≠ .endOfRows) (tail : Reads r' rest fault) :
    Reads r (event :: rest) fault

/-- Readers that read the same go on the same. -/
theorem Reads.of_read_eq {r r' : EventReader} {events : List Event} {fault : Option ReadError}
    (h : Reads r' events fault) (heq : r.read = r'.read) : Reads r events fault := by
  cases h with
  | last h => exact .last (heq.trans h)
  | failed h => exact .failed (heq.trans h)
  | event h hne tail => exact .event (heq.trans h) hne tail

/-- Open readers that advance alike read alike. -/
theorem read_eq_of_advance_eq {r r' : EventReader} (hfailed : r.failed = false)
    (hfailed' : r'.failed = false) (h : r.advance = r'.advance) : r.read = r'.read := by
  simp only [read, hfailed, hfailed', h, Bool.false_eq_true, if_false]

/-- **A reader that is going to place rows** among its open elements. -/
structure Awaits (r : EventReader) (layout : Layout) (frames : List Frame) (rows : List Row) :
    Prop where
  layout : r.layout = layout
  frames : r.frames = frames
  serves : r.cursor.Serves rows
  drained : r.drained = false
  failed : r.failed = false

variable {layout : Layout} {r : EventReader} {frames frames' : List Frame} {row : Row}
  {rows : List Row} {event : Event} {events queue : List Event}

/-- A new reader has no frame, and all rows before it. -/
theorem awaits_ofCursor {cursor : Cursor} (h : cursor.Serves rows) :
    (ofCursor layout cursor).Awaits layout [] rows := ⟨rfl, rfl, h, rfl, rfl⟩

/-- An event that is queued is read, without a look at the rows. -/
theorem read_of_queue (hcheck : r.cursor.check = .ok ()) (hfailed : r.failed = false)
    (hqueue : r.queue = event :: queue) :
    r.read = (.ok event, { r with
      queue := queue, current := event.level?, ended := r.ended || event == .endOfRows }) := by
  simp [read, advance, pop, hcheck, hfailed, hqueue]

/-- The end of rows is the last of the events that are still to be returned. -/
theorem reads_queue_end (hcheck : r.cursor.check = .ok ()) (hfailed : r.failed = false)
    (hqueue : r.queue = queue ++ [.endOfRows]) (hne : .endOfRows ∉ queue) :
    r.Reads (queue ++ [.endOfRows]) none := by
  induction queue generalizing r with
  | nil => exact .last (read_of_queue hcheck hfailed hqueue)
  | cons event rest ih =>
    rw [List.mem_cons, not_or] at hne
    exact .event (read_of_queue hcheck hfailed hqueue) (Ne.symm hne.1) (ih hcheck hfailed rfl hne.2)

namespace Awaits

/-- What is still to be returned comes before all that rows bring. -/
theorem reads_queue {fault : Option ReadError} (h : r.Awaits layout frames rows)
    (hne : .endOfRows ∉ r.queue)
    (hrest : ∀ r' : EventReader, r'.Awaits layout frames rows → r'.queue = [] →
      r'.Reads events fault) : r.Reads (r.queue ++ events) fault := by
  induction hqueue : r.queue generalizing r with
  | nil => exact hrest r h hqueue
  | cons event rest ih =>
    rw [hqueue, List.mem_cons, not_or] at hne
    have hread := read_of_queue h.serves.check_eq h.failed hqueue
    refine .event hread (Ne.symm hne.1) (ih ?_ hne.2 rfl)
    exact ⟨h.layout, h.frames, h.serves, h.drained, h.failed⟩

/-- Without anything to return, a reader scans. -/
theorem advance_eq (h : r.Awaits layout frames rows) (hqueue : r.queue = []) {s : Progress}
    {cursor : Cursor}
    (hscan : r.cursor.scan (step layout) ⟨frames, [], false, r.placed⟩ = (.ok (), s, cursor)) :
    r.advance = { r with
      cursor, frames := s.frames, queue := s.queue, drained := s.drained,
      placed := s.placed }.pop := by
  simp [advance, h.serves.check_eq, h.drained, h.layout, h.frames, hqueue, hscan]

/-- Once it has nothing to return, a reader goes on as if it had placed the next row already. -/
theorem read_row (h : r.Awaits layout frames (row :: rows)) (hqueue : r.queue = [])
    (hplace : layout.placeRow row frames = .ok (events, frames')) :
    ∃ r' : EventReader, r.read = r'.read ∧ r'.Awaits layout frames' rows ∧ r'.queue = events := by
  have hcheck := h.serves.check_eq
  have hdrained := h.drained
  cases events with
  | nil =>
    have hstep : step layout ⟨frames, [], false, r.placed⟩ (some row) =
        (⟨frames', [], false, r.placed + 1⟩, .more) := by
      simp [step, hplace]
    obtain ⟨cursor, hscan, hrest⟩ := h.serves.scan_more hstep
    let r' : EventReader := { r with cursor, frames := frames', placed := r.placed + 1 }
    have h' : r'.Awaits layout frames' rows := ⟨h.layout, rfl, hrest, hdrained, h.failed⟩
    refine ⟨r', read_eq_of_advance_eq h.failed h'.failed ?_, h', hqueue⟩
    simp [advance, r', hcheck, hrest.check_eq, hdrained, h.layout, h.frames, hqueue, hscan]
  | cons event queue =>
    have hstep : step layout ⟨frames, [], false, r.placed⟩ (some row) =
        (⟨frames', event :: queue, false, r.placed + 1⟩, .done) := by
      simp [step, hplace]
    obtain ⟨cursor, hscan, hrest⟩ := h.serves.scan_done hstep
    let r' : EventReader := { r with
      cursor, frames := frames', queue := event :: queue, drained := false, placed := r.placed + 1 }
    have h' : r'.Awaits layout frames' rows := ⟨h.layout, rfl, hrest, rfl, h.failed⟩
    refine ⟨r', read_eq_of_advance_eq h.failed h'.failed ?_, h', rfl⟩
    rw [h.advance_eq hqueue hscan]
    simp [advance, r', hrest.check_eq]

/-- At the end of rows it closes every element. -/
theorem reads_end (h : r.Awaits layout frames []) (hqueue : r.queue = [])
    (hne : .endOfRows ∉ closeAll frames) : r.Reads (closeAll frames ++ [.endOfRows]) none := by
  have hstep : step layout ⟨frames, [], false, r.placed⟩ none =
      (⟨[], closeAll frames ++ [.endOfRows], true, r.placed⟩, .done) := rfl
  obtain ⟨cursor, hscan, hrest⟩ := h.serves.scan_exhausted hstep
  let r' : EventReader :=
    { r with cursor, frames := [], queue := closeAll frames ++ [.endOfRows], drained := true }
  have hreads : r'.Reads (closeAll frames ++ [.endOfRows]) none :=
    reads_queue_end hrest.check_eq h.failed rfl hne
  refine hreads.of_read_eq (read_eq_of_advance_eq h.failed h.failed ?_)
  rw [h.advance_eq hqueue hscan]
  simp [advance, r', hrest.check_eq]

/-- **What a reader returns**: what it has still to return, the events of the rows, and the end of
every element that is open then. -/
theorem reads_of_places (h : r.Awaits layout frames rows)
    (hplaces : Places layout.placeRow frames rows events frames')
    (hne : .endOfRows ∉ r.queue ++ events ++ closeAll frames') :
    r.Reads (r.queue ++ events ++ closeAll frames' ++ [.endOfRows]) none := by
  induction hplaces generalizing r with
  | nil =>
    simp only [List.mem_append, not_or] at hne
    rw [List.append_assoc, List.append_nil]
    exact h.reads_queue hne.1.1 fun r' h' hqueue => h'.reads_end hqueue hne.2
  | cons head tail ih =>
    simp only [List.mem_append, not_or] at hne
    rw [List.append_assoc, List.append_assoc]
    refine h.reads_queue hne.1.1 fun r' h' hqueue => ?_
    obtain ⟨r'', hread, hawaits, rfl⟩ := h'.read_row hqueue head
    refine Reads.of_read_eq ?_ hread
    rw [List.append_assoc, ← List.append_assoc, ← List.append_assoc]
    refine ih hawaits ?_
    simp only [List.mem_append, not_or]
    exact ⟨⟨hne.1.2.1, hne.1.2.2⟩, hne.2⟩

end Awaits

end EventReader

end QueryPlans
