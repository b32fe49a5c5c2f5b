import QueryPlans.Cursor
import QueryPlans.Layout.Basic

/-!
# EventReader — flat rows as a well-nested stream of events

    stream   := element* endOfRows
    element  := startElement resource* endElement
    resource := startResource element* endResource

An element is an entity, a resource one of its navigations.  Every navigation of an element is one
resource, in the order of declaration, even without entities.  The reader keeps the elements that
are open, from the root down, each with the row that opened it and the number of its navigations
that are over; a row closes what it does not continue and opens what it brings.
-/

namespace QueryPlans

/-- What a reader of events comes across; levels are given by their indices. -/
inductive Event where
  | startElement (level : Nat) (properties : List (String × Scalar))
  | startResource (level : Nat)
  | endResource (level : Nat)
  | endElement (level : Nat)
  | endOfRows
deriving DecidableEq

/-- The level of an event. -/
def Event.level? : Event → Option Nat
  | startElement level _ | startResource level | endResource level | endElement level => some level
  | endOfRows => none

/-! ## Open elements -/

/-- An open element. -/
structure Frame where
  level : Level
  /-- The row that opened the element. -/
  row : Row
  /-- How many navigations are over. -/
  visited : Nat
  /-- Whether the navigation behind those is open. -/
  isOpen : Bool

/-- Resources without elements. -/
def emptyResources (levels : List Level) : List Event :=
  levels.flatMap fun level => [.startResource level.index, .endResource level.index]

namespace Frame

/-- An element that a row opens, before any of its navigations. -/
def ofRow (level : Level) (row : Row) : Frame := ⟨level, row, 0, false⟩

/-- The end of the open navigation. -/
def endOpen (f : Frame) : List Event :=
  if f.isOpen then
    (f.level.children[f.visited]?).toList.map fun child => .endResource child.index
  else []

/-- How many navigations are over once the open one has ended. -/
def settled (f : Frame) : Nat := if f.isOpen then f.visited + 1 else f.visited

/-- The events up to a navigation: the open one ends, and those between are empty. -/
def skipTo (f : Frame) (position : Nat) : List Event :=
  f.endOpen ++ emptyResources ((f.level.children.take position).drop f.settled)

/-- The events that close an element. -/
def close (f : Frame) : List Event :=
  f.skipTo f.level.children.length ++ [.endElement f.level.index]

/-- The element with the navigation at a position open. -/
def enter (f : Frame) (position : Nat) : Frame := { f with visited := position, isOpen := true }

end Frame

/-- The events that close open elements, the innermost first. -/
def closeAll : List Frame → List Event
  | [] => []
  | f :: deeper => closeAll deeper ++ f.close

/-! ## Rows -/

mutual

/-- Places a row among the elements that are open below an element, whose level is given on its own.
The result is the events of the row and the elements that are open then. -/
def Level.place (row : Row) :
    Level → Frame → List Frame → Except ReadError (List Event × List Frame)
  | .mk _ children, f, deeper => placeAmong row children 0 f deeper

/-- Looks for the first navigation of an element with values on the row, from a position on. -/
def placeAmong (row : Row) :
    List Level → Nat → Frame → List Frame → Except ReadError (List Event × List Frame)
  | [], _, f, deeper => return ([], f :: deeper)
  | child :: rest, position, f, deeper => do
    if !(← child.info.isSubtreePresent row) then placeAmong row rest (position + 1) f deeper
    else if !(← child.info.isPresent row) then throw (.entityAbsent child.label)
    else if position < f.visited then throw (.navigationResumed child.label)
    else
      let continues := f.isOpen && position == f.visited
      let former := if continues then deeper.head? else none
      let same ← match former with
        | some inner => child.info.sameEntity inner.row row
        | none => pure false
      match former, same with
      | some inner, true =>
        let (events, frames) ← child.place row inner deeper.tail
        return (events, f :: frames)
      | former, _ =>
        if former.isSome && child.info.role.isSingle then throw (.secondEntity child.label)
        let between :=
          if continues then [] else f.skipTo position ++ [.startResource child.index]
        let properties ← child.info.read row
        let (events, frames) ← child.place row (.ofRow child row) []
        return (closeAll deeper ++ between ++ .startElement child.index properties :: events,
          f.enter position :: frames)

end

/-- Places a row: it continues the open root element or opens another. -/
def Layout.placeRow (layout : Layout) (row : Row) (frames : List Frame) :
    Except ReadError (List Event × List Frame) := do
  let root := layout.root
  if !(← root.info.isPresent row) then throw .rootAbsent
  let same ← match frames with
    | [] => pure false
    | f :: _ => root.info.sameEntity f.row row
  match frames, same with
  | f :: deeper, true => root.place row f deeper
  | frames, _ =>
    let properties ← root.info.read row
    let (events, opened) ← root.place row (.ofRow root row) []
    return (closeAll frames ++ .startElement root.index properties :: events, opened)

/-! ## The reader -/

/-- A reader of events: rows are pulled when the queue of events has run out. -/
structure EventReader where
  layout : Layout
  cursor : Cursor
  /-- The open elements, from the root down. -/
  frames : List Frame
  /-- Events that are still to be returned. -/
  queue : List Event
  /-- Whether the rows are at an end. -/
  drained : Bool
  /-- Whether the end of rows was returned. -/
  ended : Bool
  failed : Bool
  /-- The level of the event returned last. -/
  current : Option Nat
  /-- How many rows were placed. -/
  placed : Nat

namespace EventReader

/-- A reader in front of the first row. -/
def ofCursor (layout : Layout) (cursor : Cursor) : EventReader where
  layout := layout
  cursor := cursor
  frames := []
  queue := []
  drained := false
  ended := false
  failed := false
  current := none
  placed := 0

/-- Raises the signal. -/
def cancel (r : EventReader) : EventReader := { r with cursor := r.cursor.cancel }

/-- What rows change about a reader. -/
structure Progress where
  frames : List Frame
  queue : List Event
  drained : Bool
  placed : Nat

/-- Rows are placed until one brings events; the end of rows closes every element. -/
def step (layout : Layout) (s : Progress) : Option Row → Progress × Cursor.Verdict
  | none =>
    ({ s with frames := [], queue := closeAll s.frames ++ [.endOfRows], drained := true }, .done)
  | some row =>
    match layout.placeRow row s.frames with
    | .error e => (s, .fail e)
    | .ok (events, frames) =>
      ({ s with frames, queue := events, placed := s.placed + 1 },
        if events.isEmpty then .more else .done)

/-- Returns the first event of the queue. -/
def pop (r : EventReader) : Except ReadError Event × EventReader :=
  match r.queue with
  | [] => (.ok .endOfRows, { r with current := none })
  | event :: queue =>
    (.ok event, { r with queue, current := event.level?, ended := r.ended || event == .endOfRows })

/-- The next event, without regard to what a failure leaves behind. -/
def advance (r : EventReader) : Except ReadError Event × EventReader :=
  match r.cursor.check with
  | .error e => (.error e, r)
  | .ok () =>
    if r.drained || !r.queue.isEmpty then r.pop
    else
      let (outcome, s, cursor) :=
        r.cursor.scan (step r.layout) ⟨r.frames, r.queue, r.drained, r.placed⟩
      let r :=
        { r with cursor, frames := s.frames, queue := s.queue, drained := s.drained,
                 placed := s.placed }
      match outcome with
      | .error e => (.error e, r)
      | .ok () => r.pop

/-- **The next event.**  Behind the end of rows it is the end of rows again, and behind a failure
there is none. -/
def read (r : EventReader) : Except ReadError Event × EventReader :=
  if r.failed then (.error .usedAfterFailure, r)
  else
    match r.advance with
    | (.error e, r) => (.error e, { r with failed := true, queue := [] })
    | (.ok event, r) => (.ok event, r)

/-- The next event for a consumer that stops at the end of rows and after a failure. -/
def next? (r : EventReader) : Option (Except ReadError Event) × EventReader :=
  if r.ended || r.failed then (none, r)
  else
    let (event, r) := r.read
    (some event, r)

end EventReader

end QueryPlans
