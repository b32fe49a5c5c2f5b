import Mathlib.Data.Option.Basic
import QueryPlans.Proofs.Forest.Entries
import QueryPlans.Proofs.Forest.Grammar

/-!
# Proofs/Forest/ReadBack — entries read back off events

A client of the events has no rows.  It can still read entries off them, since each event says of
which level it is: an element is one entry, and its resources are the navigations in order
(`Level.readBack`).  Off the events of a tree it reads the entries of the tree, and nothing of what
stands behind them (`Layout.readBack_events`).
-/

namespace QueryPlans

/-! ## Reading -/

/-- What stands behind an event that has to come first. -/
def expectEvent (event : Event) : List Event → Option (List Event)
  | [] => none
  | first :: rest => if first = event then some rest else none

/-- Elements as long as another one starts.  The first argument bounds their number. -/
def readBackMany (readOne : List Event → Option (Entry × List Event)) :
    Nat → List Event → Option (List Entry × List Event)
  | bound + 1, .startElement level properties :: rest => do
    let (entry, rest) ← readOne (.startElement level properties :: rest)
    let (entries, rest) ← readBackMany readOne bound rest
    return (entry :: entries, rest)
  | _, events => some ([], events)

mutual

/-- **The entry of the first element**, and what stands behind it. -/
def Level.readBack : Level → List Event → Option (Entry × List Event)
  | .mk info children, .startElement level properties :: rest => do
    guard (level = info.index)
    let (navigations, rest) ← readBackBranches children rest
    let rest ← expectEvent (.endElement info.index) rest
    return (.mk properties navigations, rest)
  | _, _ => none

/-- The navigations that come first, one resource for each. -/
def readBackBranches :
    List Level → List Event → Option (List (String × Branch) × List Event)
  | [], events => some ([], events)
  | child :: others, events => do
    let rest ← expectEvent (.startResource child.index) events
    let (entries, rest) ← readBackMany child.readBack rest.length rest
    let rest ← expectEvent (.endResource child.index) rest
    guard (child.info.role.isSingle = false ∨ entries.length ≤ 1)
    let branch : Branch :=
      if child.info.role.isSingle then .single entries.head? else .collection entries
    let (navigations, rest) ← readBackBranches others rest
    return ((child.label, branch) :: navigations, rest)

end

/-- **The entries of a whole stream.** -/
def Layout.readBack (layout : Layout) (events : List Event) : Option (List Entry) := do
  let (entries, rest) ← readBackMany layout.root.readBack events.length events
  let rest ← expectEvent .endOfRows rest
  guard (rest = [])
  return entries

/-! ## Reading what a tree spells -/

@[simp] theorem expectEvent_cons (event : Event) (rest : List Event) :
    expectEvent event (event :: rest) = some rest := if_pos rfl

/-- Where no element starts. -/
def NoElement (events : List Event) : Prop :=
  ∀ level properties rest, events ≠ .startElement level properties :: rest

theorem readBackMany_of_noElement {events : List Event} (h : NoElement events)
    (readOne : List Event → Option (Entry × List Event)) (bound : Nat) :
    readBackMany readOne bound events = some ([], events) := by
  rw [readBackMany.eq_def]
  split
  · exact absurd rfl (h _ _ _)
  · rfl

theorem Level.events_eq_cons (level : Level) (e : Entity) :
    ∃ properties rest, level.events e = .startElement level.index properties :: rest := by
  obtain ⟨info, children⟩ := level
  obtain ⟨value, branches⟩ := e
  exact ⟨_, _, rfl⟩

/-- What reading back has to do for every entity of a level. -/
def Level.ReadsBack (rule : SiblingRule) (level : Level) : Prop :=
  ∀ ⦃e⦄, level.Conforms rule e → ∀ rest,
    level.readBack (level.events e ++ rest) = some (level.entry e, rest)

section

variable {rule : SiblingRule} {level : Level} {es : List Entity} {rest : List Event}

/-- **Siblings are read back** one by one, up to where no element starts. -/
theorem readBackMany_events (hreads : level.ReadsBack rule)
    (hentities : ∀ e ∈ es, level.Conforms rule e) (hrest : NoElement rest) (bound : Nat)
    (hbound : (es.flatMap level.events ++ rest).length ≤ bound) :
    readBackMany level.readBack bound (es.flatMap level.events ++ rest) =
      some (es.map level.entry, rest) := by
  induction es generalizing bound with
  | nil => exact readBackMany_of_noElement hrest _ bound
  | cons e others ih =>
    rw [List.forall_mem_cons] at hentities
    have hone := hreads hentities.1 (others.flatMap level.events ++ rest)
    obtain ⟨properties, tail, hevents⟩ := level.events_eq_cons e
    rw [hevents] at hone
    rw [List.flatMap_cons, hevents] at hbound ⊢
    cases bound with
    | zero => cases hbound
    | succ bound =>
      have hothers := ih hentities.2 bound (by simp at hbound ⊢; omega)
      simp only [List.append_assoc, List.cons_append] at hone ⊢
      simp [readBackMany, hone, hothers]

theorem readBackBranches_events {children : List Level}
    (hreads : ∀ child ∈ children, child.ReadsBack rule) {branches : List (List Entity)}
    (hconforms : BranchesConform rule children branches) (rest : List Event) :
    readBackBranches children (branchEvents children branches ++ rest) =
      some (branchEntries children branches, rest) := by
  induction children generalizing branches with
  | nil => rw [branchEvents_nil, branchEntries.eq_def]; rfl
  | cons child others ih =>
    cases branches with
    | nil => exact absurd hconforms id
    | cons es more =>
      rw [List.forall_mem_cons] at hreads
      obtain ⟨hsingle, -, hentities, hmore⟩ := hconforms
      have hend : NoElement (.endResource child.index :: (branchEvents others more ++ rest)) := by
        simp [NoElement]
      have hmany := readBackMany_events hreads.1 hentities hend _ (Nat.le_refl _)
      have hfew : child.info.role.isSingle = false ∨ (es.map child.entry).length ≤ 1 := by
        rw [List.length_map, ← Bool.not_eq_true, ← imp_iff_not_or]
        exact hsingle
      rw [branchEvents, branchEntries, readBackBranches]
      simp only [List.cons_append, List.append_assoc, expectEvent_cons, Option.bind_eq_bind,
        Option.bind_some, hmany, ih hreads.2 hmore, guard, if_pos hfew]
      rfl

end

/-- **An entity is read back** off its events. -/
theorem Level.readsBack (rule : SiblingRule) (level : Level) : level.ReadsBack rule := by
  induction level with
  | mk info children ih =>
    intro e hconforms rest
    obtain ⟨value, branches⟩ := e
    have hbranches := readBackBranches_events ih hconforms.2 (.endElement info.index :: rest)
    simp only [events, List.cons_append, List.append_assoc, List.nil_append, readBack]
    simp [guard, hbranches, entry]

/-- **A forest is read back** off its events. -/
theorem Layout.readBack_events {layout : Layout} {rule : SiblingRule} {forest : List Entity}
    (h : ∀ e ∈ forest, layout.root.Conforms rule e) :
    layout.readBack (forest.flatMap layout.root.events ++ [.endOfRows]) =
      some (forest.map layout.root.entry) := by
  have hend : NoElement [.endOfRows] := by simp [NoElement]
  have hmany := readBackMany_events (layout.root.readsBack rule) h hend _ (Nat.le_refl _)
  rw [readBack, hmany]
  rfl

/-! ## Reading what a reader returns -/

/-- **A reader that comes to its end** has returned the events of the forest that its rows grow. -/
theorem Layout.events_of_reads {layout : Layout} {cursor : Cursor} {rows : List Row}
    (hcursor : cursor.Serves rows) {events : List Event}
    (hreads : (EventReader.ofCursor layout cursor).Reads events none) :
    events = (layout.grown rows).flatMap layout.root.events ++ [.endOfRows] ∧
      layout.Conforms AdjacentDiffer (layout.grown rows) := by
  obtain ⟨r, hreturns, hend⟩ := EventReader.Returns.nil.append_reads List.not_mem_nil hreads
  obtain ⟨pulled, placed, frames, c, hpulls, hfetch, hplaces, rfl⟩ :=
    hreturns.traces.of_endOfRows hend fun _ _ _ => endOfRows_not_mem_of_places
  obtain ⟨rest, rfl, hrest⟩ := hcursor.of_pulls hpulls
  obtain ⟨rfl, -⟩ := hrest.of_fetch_none hfetch
  obtain ⟨hevents, hconforms⟩ := events_of_places hplaces
  rw [List.append_nil, hevents]
  exact ⟨rfl, hconforms⟩

/-- What is read back off the events of a reader are the entries of that forest. -/
theorem Layout.readBack_of_reads {layout : Layout} {cursor : Cursor} {rows : List Row}
    (hcursor : cursor.Serves rows) {events : List Event}
    (hreads : (EventReader.ofCursor layout cursor).Reads events none) :
    layout.readBack events = some ((layout.grown rows).map layout.root.entry) := by
  obtain ⟨rfl, hconforms⟩ := events_of_reads hcursor hreads
  exact readBack_events hconforms.entities

end QueryPlans
