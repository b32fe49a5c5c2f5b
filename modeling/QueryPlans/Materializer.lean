import QueryPlans.Continuation
import QueryPlans.Cursor
import QueryPlans.Entry
import QueryPlans.Layout.Basic

/-!
# Materializer — nested entries from flat rows

Rows of one root entity follow one another.  The materializer reads such a group, one row beyond it
at most, and builds the entry of the group: at every level below the root the rows are split into
runs, one for each entity, and the run of an entity is what its own navigations are built from.  A
page ends after a number of entries; its continuation is read off the last group.
-/

namespace QueryPlans

/-! ## Runs -/

/-- The rows of one entity; there is at least one. -/
structure Run where
  first : Row
  /-- The rows behind the first, the last one in front. -/
  laterReversed : List Row

namespace Run

/-- A run of one row. -/
def ofRow (row : Row) : Run := ⟨row, []⟩

/-- A run that goes on with a row. -/
def add (run : Run) (row : Row) : Run := { run with laterReversed := row :: run.laterReversed }

/-- The rows of a run in the order in which they came. -/
def rows (run : Run) : List Row := run.first :: run.laterReversed.reverse

end Run

/-- Whether one of the runs has the entity of a row. -/
def anySameEntity (level : LevelInfo) (row : Row) : List Run → Except ReadError Bool
  | [] => .ok false
  | run :: rest => do
    if ← level.sameEntity run.first row then .ok true else anySameEntity level row rest

/-- The runs that have ended, the last one in front, and the one that has not. -/
structure Runs where
  closedReversed : List Run
  current : Option Run

namespace Runs

/-- No runs yet. -/
def none : Runs := ⟨[], .none⟩

/-- Ends the run that has not ended. -/
def close (s : Runs) : Runs := ⟨s.current.toList ++ s.closedReversed, .none⟩

/-- All runs in the order in which they began. -/
def toList (s : Runs) : List Run := s.close.closedReversed.reverse

/-- Starts a run with a row.  An entity with a key must not have had a run before. -/
def start (level : LevelInfo) (s : Runs) (row : Row) : Except ReadError Runs := do
  let s := s.close
  if ← level.hasKey row then
    if ← anySameEntity level row s.closedReversed.reverse then
      throw (.entityReappeared level.role.label)
  return { s with current := some (.ofRow row) }

/-- Adds a row.  A row without the level ends a run and belongs to none; it must not have values
below the level either. -/
def add (level : LevelInfo) (s : Runs) (row : Row) : Except ReadError Runs := do
  if ← level.isPresent row then
    match s.current with
    | .none => s.start level row
    | some run =>
      if ← level.sameEntity run.first row then return { s with current := some (run.add row) }
      else s.start level row
  else if ← level.isSubtreePresent row then throw (.entityAbsent level.role.label)
  else return s.close

end Runs

/-- **Splits rows into the runs of a level's entities.** -/
def entityRuns (level : LevelInfo) (rows : List Row) : Except ReadError (List Run) := do
  return (← rows.foldlM (Runs.add level) Runs.none).toList

/-! ## Entries -/

mutual

/-- The entry of an entity, from its rows. -/
def Level.build : Level → Run → Except ReadError Entry
  | .mk info children, run => do
    let properties ← info.read run.first
    let navigations ← buildNavigations run.rows children
    return .mk properties navigations

/-- The navigations of an entity, from its rows. -/
def buildNavigations (rows : List Row) : List Level → Except ReadError (List (String × Branch))
  | [] => return []
  | child :: rest => do
    let runs ← entityRuns child.info rows
    if child.info.role.isSingle && 1 < runs.length then
      throw (.severalEntities child.label runs.length)
    let entries ← runs.mapM fun run => child.build run
    let branch : Branch :=
      if child.info.role.isSingle then .single entries.head? else .collection entries
    return (child.label, branch) :: (← buildNavigations rows rest)

end

/-! ## Continuations -/

/-- The value of a column in the last row that has one. -/
def lastPresent (column : Nat) (rows : List Row) : Except ReadError Scalar :=
  go rows.reverse
where
  /-- The rows, the last one in front. -/
  go : List Row → Except ReadError Scalar
    | [] => .ok .null
    | row :: rest => do
      let v ← row.column column
      if v.isNull then go rest else return v

/-- Reads the values of a continuation off a group and writes each into the group's entry. -/
def continueAfter (rows : List Row) :
    List ContinuationColumn → Entry → Except ReadError (List (String × Scalar) × Entry)
  | [], e => return ([], e)
  | column :: rest, e => do
    let v ← lastPresent column.column rows
    let (values, e) ← continueAfter rows rest (e.setPath v column.path)
    return ((column.property, v) :: values, e)

/-! ## The materializer -/

/-- Entries that are built from the rows of a cursor, group by group and page by page. -/
structure Materializer where
  layout : Layout
  cursor : Cursor
  /-- The row that ended the last group. -/
  lookahead : Option Row
  /-- The most rows that were held at once. -/
  highWater : Nat
  maxGroupRows : Nat
  pageSize : Option Nat
  /-- How many entries were built. -/
  produced : Nat
  finished : Bool
  /-- The continuation of the page, once it is full. -/
  continuation : Option Continuation

/-- A group while its rows are read. -/
structure RowGroup where
  run : Run
  size : Nat
  /-- The row behind the group. -/
  next : Option Row

namespace RowGroup

/-- A group of one row, with no row behind it yet. -/
def ofRow (row : Row) : RowGroup := ⟨.ofRow row, 1, none⟩

/-- How many rows are held. -/
def held (g : RowGroup) : Nat := g.size + g.next.toList.length

/-- Adds a row of the same root entity, as long as the limit allows. -/
def step (root : LevelInfo) (limit : Nat) (g : RowGroup) : Option Row → RowGroup × Cursor.Verdict
  | none => (g, .done)
  | some row =>
    match root.sameEntity g.run.first row with
    | .error e => (g, .fail e)
    | .ok false => ({ g with next := some row }, .done)
    | .ok true =>
      if limit ≤ g.size then (g, .fail (.groupTooLarge limit))
      else ({ g with run := g.run.add row, size := g.size + 1 }, .more)

end RowGroup

namespace Materializer

/-- A materializer that is watched by no signal and has no page size. -/
def ofCursor (layout : Layout) (cursor : Cursor) (maxGroupRows : Nat) : Materializer where
  layout := layout
  cursor := cursor
  lookahead := none
  highWater := 0
  maxGroupRows := maxGroupRows
  pageSize := none
  produced := 0
  finished := false
  continuation := none

/-- A materializer that ends its page after a number of entries. -/
def withPageSize (m : Materializer) (size : Nat) : Materializer := { m with pageSize := some size }

/-- How many rows are held between calls. -/
def buffered (m : Materializer) : Nat := m.lookahead.toList.length

/-- Whether as many entries were built as a page has. -/
def isPageFull (m : Materializer) : Bool := m.pageSize.any fun size => size ≤ m.produced

/-- Raises the signal. -/
def cancel (m : Materializer) : Materializer := { m with cursor := m.cursor.cancel }

/-- The row that the next group starts with, if there is one. -/
def firstRow (m : Materializer) : Except ReadError (Option Row) × Materializer :=
  match m.lookahead with
  | some row => (.ok (some row), { m with lookahead := none })
  | none =>
    let (row, cursor) := m.cursor.fetch
    (row, { m with cursor })

/-- Reads the group of a first row. -/
def readGroup (m : Materializer) (first : Row) : Except ReadError RowGroup × Materializer :=
  let m := { m with highWater := max m.highWater 1 }
  match m.layout.root.info.isPresent first with
  | .error e => (.error e, m)
  | .ok false => (.error .rootAbsent, m)
  | .ok true =>
    let step := RowGroup.step m.layout.root.info m.maxGroupRows
    let (outcome, group, cursor) := m.cursor.scan step (.ofRow first)
    (outcome.map fun _ => group, { m with cursor, highWater := max m.highWater group.held })

/-- The entry of a group; the entry that fills the page also settles the continuation. -/
def deliver (m : Materializer) (group : RowGroup) : Except ReadError Entry × Materializer :=
  match m.layout.root.build group.run with
  | .error e => (.error e, m)
  | .ok entry =>
    let m := { m with produced := m.produced + 1, lookahead := group.next }
    if m.isPageFull then
      match continueAfter group.run.rows m.layout.continuation entry with
      | .error e => (.error e, m)
      | .ok (values, entry) =>
        let continuation := if values.isEmpty then none else some (Continuation.mk values)
        (.ok entry, { m with continuation, finished := true })
    else (.ok entry, m)

/-- The next entry, without regard to what a failure leaves behind. -/
def advance (m : Materializer) : Except ReadError (Option Entry) × Materializer :=
  if m.finished then (.ok none, m)
  else
    match m.cursor.check with
    | .error e => (.error e, m)
    | .ok () =>
      if m.isPageFull then (.ok none, { m with finished := true })
      else
        match m.firstRow with
        | (.error e, m) => (.error e, m)
        | (.ok none, m) => (.ok none, { m with finished := true })
        | (.ok (some first), m) =>
          match m.readGroup first with
          | (.error e, m) => (.error e, m)
          | (.ok group, m) =>
            let (entry, m) := m.deliver group
            (entry.map some, m)

/-- Nothing is held or built after a failure. -/
def abort (m : Materializer) : Materializer := { m with finished := true, lookahead := none }

/-- **The next entry**, or none once the rows or the page are at an end. -/
def next (m : Materializer) : Except ReadError (Option Entry) × Materializer :=
  match m.advance with
  | (.error e, m) => (.error e, m.abort)
  | (.ok entry, m) => (.ok entry, m)

end Materializer

end QueryPlans
