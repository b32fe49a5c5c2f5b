import QueryPlans.Proofs.EventTrace
import QueryPlans.Proofs.Forest.Growth

/-!
# Proofs/Forest/Grammar — event streams are well formed, whatever the rows

    stream      := element(root)* endOfRows
    element(n)  := startElement(n) resource(c₁) … resource(cₖ) endElement(n)
    resource(c) := startResource(c) element(c)* endResource(c)

Here `c₁ … cₖ` are the levels right below `n`, and a single-valued navigation has one element at
most.  The events of a conforming tree are a word of this grammar, and whatever rows a reader has
placed, it has returned the beginning of the events of the forest that they grow
(`stream_of_returns`).
-/

namespace QueryPlans

/-! ## The grammar -/

mutual

/-- **The events of one element**, with its resources in the order of declaration. -/
def Level.IsElement : Level → List Event → Prop
  | .mk info children, events => ∃ properties resources,
      events = .startElement info.index properties :: (resources ++ [.endElement info.index]) ∧
        AreResources children resources

/-- The events of one resource for each of several navigations. -/
def AreResources : List Level → List Event → Prop
  | [], events => events = []
  | child :: rest, events => ∃ (elements : List (List Event)) (others : List Event),
      events = .startResource child.index ::
        (elements.flatten ++ .endResource child.index :: others) ∧
        (child.info.role.isSingle = true → elements.length ≤ 1) ∧
        (∀ element ∈ elements, child.IsElement element) ∧ AreResources rest others

end

/-- **The events of a whole stream.** -/
def Layout.IsStream (layout : Layout) (events : List Event) : Prop :=
  ∃ elements : List (List Event), events = elements.flatten ++ [.endOfRows] ∧
    ∀ element ∈ elements, layout.root.IsElement element

/-! ## Trees spell words -/

/-- The step of the induction from the entities of a navigation to the level above. -/
theorem areResources_branchEvents {rule : SiblingRule} {children : List Level}
    (ih : ∀ child ∈ children, ∀ e, child.Conforms rule e → child.IsElement (child.events e))
    {branches : List (List Entity)} (h : BranchesConform rule children branches) :
    AreResources children (branchEvents children branches) := by
  induction children generalizing branches with
  | nil => exact branchEvents_nil branches
  | cons child rest ihrest =>
    rw [List.forall_mem_cons] at ih
    cases branches with
    | nil => exact absurd h id
    | cons es more =>
      obtain ⟨hsingle, -, hentities, hmore⟩ := h
      refine ⟨es.map child.events, branchEvents rest more, ?_, ?_, ?_, ihrest ih.2 hmore⟩
      · rw [branchEvents, List.flatMap_def]
      · rwa [List.length_map]
      · intro element helement
        obtain ⟨e, he, rfl⟩ := List.mem_map.1 helement
        exact ih.1 e (hentities e he)

/-- The events of an entity that conforms are those of one element. -/
theorem Level.Conforms.isElement {rule : SiblingRule} {level : Level} {e : Entity}
    (h : level.Conforms rule e) : level.IsElement (level.events e) := by
  induction level generalizing e with
  | mk info children ih =>
    obtain ⟨value, branches⟩ := e
    exact ⟨info.values value, branchEvents children branches, rfl,
      areResources_branchEvents (fun child hchild e => ih child hchild) h.2⟩

theorem Layout.Conforms.isStream {layout : Layout} {rule : SiblingRule} {forest : List Entity}
    (h : layout.Conforms rule forest) :
    layout.IsStream (forest.flatMap layout.root.events ++ [.endOfRows]) := by
  refine ⟨forest.map layout.root.events, by rw [List.flatMap_def], ?_⟩
  intro element helement
  obtain ⟨e, he, rfl⟩ := List.mem_map.1 helement
  exact (h.entities e he).isElement

/-! ## Readers -/

/-- No row brings the end of rows. -/
theorem endOfRows_not_mem_of_places {layout : Layout} {rows : List Row} {events : List Event}
    {frames : List Frame} (h : Places layout.placeRow [] rows events frames) :
    .endOfRows ∉ events ++ closeAll frames := by
  rw [(Layout.events_of_places h).1, List.mem_flatMap]
  rintro ⟨e, -, he⟩
  exact layout.root.endOfRows_not_mem_events e he

/-- **Rows that are placed, and then closed, make a stream.** -/
theorem isStream_of_places {layout : Layout} {rows : List Row} {events : List Event}
    {frames : List Frame} (h : Places layout.placeRow [] rows events frames) :
    layout.IsStream (events ++ closeAll frames ++ [.endOfRows]) := by
  obtain ⟨hevents, hconforms⟩ := Layout.events_of_places h
  rw [hevents]
  exact hconforms.isStream

/-- **Event streams are well formed**, whatever a cursor delivers: what was returned without a fault
is the beginning of a stream, and a whole stream once the end of rows was returned; and a reader
that fails at a row, if no signal stopped it, has returned the events of the rows before it. -/
theorem stream_of_returns (layout : Layout) (cursor : Cursor) (events : List Event)
    (r : EventReader) (h : (EventReader.ofCursor layout cursor).Returns events r) :
    (∃ rest, layout.IsStream (events ++ rest)) ∧
    (.endOfRows ∈ events → layout.IsStream events) ∧
    ∀ e r', r.read = (.error e, r') →
      r.cursor.check = .error e ∨ EventReader.Blocked layout cursor events e := by
  have htraces := h.traces
  refine ⟨?_, fun hend => ?_, fun e r' hread => htraces.read_error hread⟩
  · cases htraces with
    | placing _ _ _ _ hplaces =>
      refine ⟨r.queue ++ closeAll r.frames ++ [.endOfRows], ?_⟩
      simpa using isStream_of_places hplaces
    | closing _ _ _ _ hplaces hevents =>
      exact ⟨r.queue, hevents ▸ isStream_of_places hplaces⟩
  · obtain ⟨rows, placed, frames, c, -, -, hplaces, rfl⟩ :=
      htraces.of_endOfRows hend fun _ _ _ => endOfRows_not_mem_of_places
    exact isStream_of_places hplaces

/-- A row that is too narrow: the events before it begin a stream, and no event follows. -/
theorem stream_of_returns_travellers :
    let cursor : Cursor := .ofDeliveries [.row ⟨[.int 1, .int 10]⟩, .row ⟨[.int 2]⟩]
    let events : List Event := [.startElement 0 [("Id", .int 1)], .startResource 1,
      .startElement 1 [("Trip", .int 10)]]
    ∃ r r', (EventReader.ofCursor .travellers cursor).Returns events r ∧
      (∃ rest, Layout.travellers.IsStream (events ++ rest)) ∧
      r.read = (.error (.columnOutOfRange 1 1), r') ∧
      EventReader.Blocked .travellers cursor events (.columnOutOfRange 1 1) := by
  intro cursor events
  have hreturns : ∃ r, (EventReader.ofCursor .travellers cursor).Returns events r ∧
      r.cursor.check = .ok () ∧ ∃ r', r.read = (.error (.columnOutOfRange 1 1), r') :=
    ⟨_, .snoc (.snoc (.snoc .nil (by decide) rfl) (by decide) rfl) (by decide) rfl, rfl, _, rfl⟩
  obtain ⟨r, h, hcheck, r', hread⟩ := hreturns
  have hstream := stream_of_returns .travellers cursor events r h
  rcases hstream.2.2 _ r' hread with hsignal | hblocked
  · cases hcheck.symm.trans hsignal
  · exact ⟨r, r', h, hstream.1, hread, hblocked⟩

end QueryPlans
