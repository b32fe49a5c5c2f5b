import QueryPlans.Proofs.EventReader
import QueryPlans.Proofs.Forest.Basic

/-!
# Proofs/Forest/Events — the event reader walks the tree

The rows of an entity, placed below its open element, bring the events of its navigations, once
what they leave open is closed (`Level.Emits`).  The rows of siblings do so one entity after the
other, and it does not matter where: within an element, where a navigation is open, or at the top
(`places_siblings`).  Closing the last of them and skipping to the next navigation is all that
stands between one navigation and the next.
-/

namespace QueryPlans

/-! ## Events of entities -/

mutual

/-- **The events of an entity.** -/
def Level.events : Level → Entity → List Event
  | .mk info children, .mk value branches =>
    .startElement info.index (info.values value) ::
      (branchEvents children branches ++ [.endElement info.index])

/-- The events of entities, navigation by navigation. -/
def branchEvents : List Level → List (List Entity) → List Event
  | child :: rest, es :: more =>
    .startResource child.index ::
      (es.flatMap child.events ++ .endResource child.index :: branchEvents rest more)
  | _, _ => []

end

/-! ## Siblings, wherever they are placed -/

section

variable {place : Placement} {wrap : List Frame → List Frame} {Belongs : Row → Prop} {level : Level}
  {rowOf : Cells → Row} {e prev : Entity} {es : List Entity} {inner : Frame}
  {deeper frames : List Frame}

/-- What the rows of an entity have to do once its element is open. -/
def Level.Emits (level : Level) : Prop :=
  ∀ ⦃rowOf e⦄, level.Shown rowOf → level.Conforms AdjacentDiffer e → ∀ row, ∃ events frames,
    Places level.placement [.ofRow level row] ((level.flatten e).map rowOf) events frames ∧
      .startElement level.index (level.info.values e.value) :: (events ++ closeAll frames) =
        level.events e

/-- Rows of the open entity are placed below its element. -/
def GoesOn (place : Placement) (wrap : List Frame → List Frame) (Belongs : Row → Prop)
    (level : Level) : Prop :=
  ∀ ⦃row inner deeper events frames⦄, Belongs row →
    level.info.sameEntity inner.row row = .ok true →
    level.place row inner deeper = .ok (events, frames) →
      place row (wrap (inner :: deeper)) = .ok (events, wrap frames)

/-- A row of the next entity closes the open one and opens its own. -/
def Succeeds (place : Placement) (wrap : List Frame → List Frame) (Belongs : Row → Prop)
    (level : Level) : Prop :=
  ∀ ⦃row inner deeper properties events frames⦄, Belongs row →
    level.info.sameEntity inner.row row = .ok false → level.info.read row = .ok properties →
    level.place row (.ofRow level row) [] = .ok (events, frames) →
      place row (wrap (inner :: deeper)) =
        .ok (closeAll (inner :: deeper) ++ .startElement level.index properties :: events,
          wrap frames)

/-- Rows placed below a frame leave what is above it. -/
theorem Places.remains {f : Frame} {rows : List Row} {events : List Event}
    (h : Places level.placement (f :: deeper) rows events frames) : f.Remains frames := by
  generalize hstart : f :: deeper = start at h
  induction h generalizing f deeper with
  | nil => exact ⟨f, deeper, hstart.symm, rfl, rfl⟩
  | cons head tail ih =>
    subst hstart
    obtain ⟨f', deeper', rfl, hrow, hlevel⟩ := Level.place_remains head
    obtain ⟨f'', deeper'', hframes, hrow', hlevel'⟩ := ih rfl
    exact ⟨f'', deeper'', hframes, hrow'.trans hrow, hlevel'.trans hlevel⟩

/-- Rows of one entity are placed below its element, wherever that is. -/
theorem places_within (hgoes : GoesOn place wrap Belongs level) {rows : List Row}
    {events : List Event} (h : Places level.placement (inner :: deeper) rows events frames)
    (hrows : ∀ row ∈ rows, Belongs row ∧ level.info.sameEntity inner.row row = .ok true) :
    Places place (wrap (inner :: deeper)) rows events (wrap frames) := by
  generalize hstart : inner :: deeper = start at h
  induction h generalizing inner deeper with
  | nil => exact .nil
  | cons head tail ih =>
    subst hstart
    rw [List.forall_mem_cons] at hrows
    obtain ⟨f, below, rfl, hrow, -⟩ := Level.place_remains head
    refine .cons (hgoes hrows.1.1 hrows.1.2 head) (ih ?_ rfl)
    rw [hrow]
    exact hrows.2

/-- **The rows of an entity**: the first opens its element, the others are placed below it. -/
theorem places_entity (hgoes : GoesOn place wrap Belongs level) (hemits : level.Emits)
    (hshown : level.Shown rowOf) (hwf : level.WellFormed)
    (hconforms : level.Conforms AdjacentDiffer e)
    (hbelongs : ∀ cells ∈ level.flatten e, Belongs (rowOf cells)) (start : List Frame)
    (front : List Event)
    (hfirst : ∀ ⦃events opened⦄,
      level.place (level.headRow rowOf e) (.ofRow level (level.headRow rowOf e)) [] =
        .ok (events, opened) →
      place (level.headRow rowOf e) start =
        .ok (front ++ .startElement level.index (level.info.values e.value) :: events,
          wrap opened)) :
    ∃ events inner deeper,
      Places place start ((level.flatten e).map rowOf) (front ++ events) (wrap (inner :: deeper)) ∧
        events ++ closeAll (inner :: deeper) = level.events e ∧
        inner.row.Shows level.info.columns e.value := by
  obtain ⟨events, frames, hplaces, hevents⟩ := hemits hshown hconforms (level.headRow rowOf e)
  obtain ⟨last, deeper, rfl, hlast, -⟩ := hplaces.remains
  rw [level.map_flatten] at hplaces ⊢
  cases hplaces with
  | @cons _ _ first later _ _ _ head tail =>
    obtain ⟨f, below, rfl, hrow, -⟩ := Level.place_remains head
    have hhead := hshown.headRow (e := e) hwf
    have hwithin := places_within hgoes tail fun row hmem => by
      obtain ⟨cells, hcells, rfl⟩ := List.mem_map.1 hmem
      have hcells := List.mem_of_mem_tail hcells
      refine ⟨hbelongs cells hcells, ?_⟩
      rw [hrow]
      exact hshown.sameEntity_of_mem hwf hcells
    refine ⟨.startElement level.index (level.info.values e.value) :: (first ++ later), last, deeper,
      (Places.cons (hfirst head) hwithin).append_eq ?_, hevents, ?_⟩
    · rw [List.append_assoc, List.cons_append]
    · rw [hlast]
      exact hhead

/-- **The rows of siblings** behind one that is open. -/
theorem places_siblings (hgoes : GoesOn place wrap Belongs level)
    (hnext : es ≠ [] → Succeeds place wrap Belongs level) (hemits : level.Emits)
    (hshown : level.Shown rowOf) (hwf : level.WellFormed)
    (hconforms : ∀ e ∈ es, level.Conforms AdjacentDiffer e)
    (hbelongs : ∀ e ∈ es, ∀ cells ∈ level.flatten e, Belongs (rowOf cells))
    (hadjacent : AdjacentDiffer level.info (prev :: es)) (inner : Frame) (deeper : List Frame)
    (hprev : inner.row.Shows level.info.columns prev.value) :
    ∃ events inner' deeper',
      Places place (wrap (inner :: deeper)) ((es.flatMap level.flatten).map rowOf) events
        (wrap (inner' :: deeper')) ∧
      events ++ closeAll (inner' :: deeper') =
        closeAll (inner :: deeper) ++ es.flatMap level.events := by
  induction es generalizing inner deeper prev with
  | nil => exact ⟨[], inner, deeper, .nil, (List.append_nil _).symm⟩
  | cons e rest ih =>
    rw [List.forall_mem_cons] at hconforms hbelongs
    have hadjacent := List.isChain_cons_cons.1 hadjacent
    have hhead := hshown.headRow (e := e) hwf
    have hother : level.info.sameEntity inner.row (level.headRow rowOf e) = .ok false := by
      rw [hwf.owns.sameEntity_eq hprev hhead, hadjacent.1]
    -- The next sibling starts by closing the one before it, so the values of that are all that is
    -- needed of it.
    obtain ⟨events, last, below, hplaces, hevents, hlast⟩ :=
      places_entity hgoes hemits hshown hwf hconforms.1 hbelongs.1 (wrap (inner :: deeper)) _
        (fun _ _ hopened => hnext (List.cons_ne_nil _ _) (hbelongs.1 _ (List.head_mem _)) hother
          (hwf.owns.read_eq hhead) hopened)
    obtain ⟨events', last', below', hplaces', hevents'⟩ :=
      ih (fun _ => hnext (List.cons_ne_nil _ _)) hconforms.2 hbelongs.2 hadjacent.2 last below hlast
    refine ⟨closeAll (inner :: deeper) ++ events ++ events', last', below', ?_, ?_⟩
    · rw [List.flatMap_cons, List.map_append]
      exact hplaces.append hplaces'
    · rw [List.append_assoc, hevents', List.flatMap_cons, List.append_assoc, ← hevents,
        List.append_assoc]

/-- **The rows of the entities of one navigation**, the first of which opens an element. -/
theorem places_entities (hgoes : GoesOn place wrap Belongs level)
    (hnext : es ≠ [] → Succeeds place wrap Belongs level) (hemits : level.Emits)
    (hshown : level.Shown rowOf) (hwf : level.WellFormed)
    (hconforms : ∀ e' ∈ e :: es, level.Conforms AdjacentDiffer e')
    (hbelongs : ∀ e' ∈ e :: es, ∀ cells ∈ level.flatten e', Belongs (rowOf cells))
    (hadjacent : AdjacentDiffer level.info (e :: es)) (start : List Frame) (front : List Event)
    (hfirst : ∀ ⦃events opened⦄,
      level.place (level.headRow rowOf e) (.ofRow level (level.headRow rowOf e)) [] =
        .ok (events, opened) →
      place (level.headRow rowOf e) start =
        .ok (front ++ .startElement level.index (level.info.values e.value) :: events,
          wrap opened)) :
    ∃ events inner deeper,
      Places place start (((e :: es).flatMap level.flatten).map rowOf) (front ++ events)
        (wrap (inner :: deeper)) ∧
      events ++ closeAll (inner :: deeper) = (e :: es).flatMap level.events := by
  rw [List.forall_mem_cons] at hconforms hbelongs
  obtain ⟨events, inner, deeper, hplaces, hevents, hinner⟩ :=
    places_entity hgoes hemits hshown hwf hconforms.1 hbelongs.1 start front hfirst
  obtain ⟨events', inner', deeper', hplaces', hevents'⟩ :=
    places_siblings hgoes hnext hemits hshown hwf hconforms.2 hbelongs.2 hadjacent inner deeper
      hinner
  refine ⟨events ++ events', inner', deeper', ?_, ?_⟩
  · rw [List.flatMap_cons, List.map_append, ← List.append_assoc]
    exact hplaces.append hplaces'
  · rw [List.append_assoc, hevents', List.flatMap_cons, ← hevents, List.append_assoc]

end

/-! ## Navigation by navigation -/

section

variable {info : LevelInfo} {pre rest : List Level} {child : Level} {rowOf : Cells → Row}
  {f : Frame} {e : Entity}

theorem goesOn_below (hopen : f.isOpen = true) (hvisited : f.visited = pre.length) :
    GoesOn (Level.mk info (pre ++ child :: rest)).placement (f :: ·) (Reaches pre child) child :=
  fun _ _ _ _ _ hreaches hsame hplace => place_same info hreaches hopen hvisited hsame hplace

theorem succeeds_below (hopen : f.isOpen = true) (hvisited : f.visited = pre.length)
    (hcollection : child.info.role.isSingle = false) :
    Succeeds (Level.mk info (pre ++ child :: rest)).placement (f :: ·) (Reaches pre child) child :=
  fun _ _ _ _ _ _ hreaches hother hread hplace =>
    place_next info hreaches hopen hvisited hcollection hother hread hplace

/-- The rows of an entity come to its navigation: they are blank to those before. -/
theorem reaches_of_mem_flatten (hshown : ∀ other ∈ pre, other.Shown rowOf)
    (hchild : child.Shown rowOf) (hwf : child.WellFormed)
    (hdisjoint : ∀ other ∈ pre, other.info.subtreeColumns.Disjoint child.info.subtreeColumns)
    (hpresent : child.info.isPresentIn e.value = true) {cells : Cells}
    (h : cells ∈ child.flatten e) : Reaches pre child (rowOf cells) where
  before other hother := (hshown other hother).isSubtreePresent_blank fun c hc =>
    Level.blank_of_mem_flatten hwf e cells h c fun hc' => hdisjoint other hother hc hc'
  subtree := hchild.isSubtreePresent_of_mem hwf hpresent h
  present := hchild.isPresent_of_mem hwf hpresent h

/-- **The rows of one navigation** close what is open, skip to the navigation, and open it. -/
theorem places_branch (info : LevelInfo) (rest : List Level)
    (hshown : ∀ other ∈ pre, other.Shown rowOf) (hchild : child.Shown rowOf)
    (hdisjoint : ∀ other ∈ pre, other.info.subtreeColumns.Disjoint child.info.subtreeColumns)
    (hwf : child.WellFormed) (hemits : child.Emits) {es : List Entity}
    (hsingle : child.info.role.isSingle = true → (e :: es).length ≤ 1)
    (hadjacent : AdjacentDiffer child.info (e :: es))
    (hconforms : ∀ e' ∈ e :: es, child.Conforms AdjacentDiffer e') (f : Frame) (deeper : List Frame)
    (hsettled : f.settled ≤ pre.length) :
    ∃ events inner below,
      Places (Level.mk info (pre ++ child :: rest)).placement (f :: deeper)
        (((e :: es).flatMap child.flatten).map rowOf)
        (closeAll deeper ++ (f.skipTo pre.length ++ [.startResource child.index]) ++ events)
        (f.enter pre.length :: inner :: below) ∧
      events ++ closeAll (inner :: below) = (e :: es).flatMap child.events := by
  have hbelongs : ∀ e' ∈ e :: es, ∀ cells ∈ child.flatten e', Reaches pre child (rowOf cells) :=
    fun e' he' _ hcells => reaches_of_mem_flatten hshown hchild hwf hdisjoint
      (hconforms e' he').isPresentIn hcells
  have hcollection (hes : es ≠ []) : child.info.role.isSingle = false := by
    rw [Bool.eq_false_iff]
    intro hrole
    have hfew := hsingle hrole
    have hpos := List.length_pos_of_ne_nil hes
    rw [List.length_cons] at hfew
    omega
  have hreaches := hbelongs e (List.mem_cons_self ..) _ (List.head_mem (child.flatten_ne_nil e))
  have hread := hwf.owns.read_eq (hchild.headRow (e := e) hwf)
  have hgoes : GoesOn (Level.mk info (pre ++ child :: rest)).placement (f.enter pre.length :: ·)
      (Reaches pre child) child := goesOn_below rfl rfl
  exact places_entities hgoes (fun hes => succeeds_below rfl rfl (hcollection hes)) hemits hchild
    hwf hconforms hbelongs hadjacent (f :: deeper) _
    fun _ _ hopened => place_first info hreaches hsettled hread hopened

/-- **The rows below an element** bring the events of its navigations, once what they leave open is
closed and the rest is skipped. -/
theorem places_branches {children suffix : List Level} (pre : List Level)
    (hchildren : children = pre ++ suffix)
    (hemits : ∀ child ∈ children, child.Emits) (hwf : ∀ child ∈ children, child.WellFormed)
    (hdisjoint : children.Pairwise fun a b =>
      a.info.subtreeColumns.Disjoint b.info.subtreeColumns)
    (hshown : ∀ child ∈ children, child.Shown rowOf) {branches : List (List Entity)}
    (hconforms : BranchesConform AdjacentDiffer suffix branches) (f : Frame) (deeper : List Frame)
    (hlevel : f.level = .mk info children) (hsettled : f.settled ≤ pre.length) :
    ∃ events f' deeper',
      Places (Level.mk info children).placement (f :: deeper)
        ((flattenBranches suffix branches).map rowOf) events (f' :: deeper') ∧
      f'.level = .mk info children ∧
      events ++ (closeAll deeper' ++ f'.skipTo children.length) =
        closeAll deeper ++ f.skipTo pre.length ++ branchEvents suffix branches := by
  -- `f` and `deeper` are what the navigations before the suffix leave open; only the next entity
  -- closes it, so the events of a navigation are complete one step later.
  induction suffix generalizing pre branches f deeper with
  | nil =>
    rw [List.append_nil] at hchildren
    subst hchildren
    refine ⟨[], f, deeper, ?_, hlevel, ?_⟩
    · rw [flattenBranches.eq_def]
      exact .nil
    · rw [branchEvents.eq_def]
      simp
  | cons child rest ih =>
    cases branches with
    | nil => exact absurd hconforms id
    | cons es more =>
      obtain ⟨hsingle, hadjacent, hentities, hmore⟩ := hconforms
      have hnth : f.level.children[pre.length]? = some child := by
        rw [hlevel, Level.children, hchildren]
        simp
      have hsplit : children = (pre ++ [child]) ++ rest := by
        rw [hchildren, List.append_assoc, List.singleton_append]
      have hlength : (pre ++ [child]).length = pre.length + 1 := List.length_append
      cases es with
      | nil =>
        obtain ⟨events, f', deeper', hplaces, hlevel', hevents⟩ :=
          ih _ hsplit hmore f deeper hlevel (by omega)
        refine ⟨events, f', deeper', hplaces, hlevel', ?_⟩
        rw [hevents, hlength, Frame.skipTo_succ hsettled hnth, branchEvents]
        simp
      | cons e es =>
        subst hchildren
        have hmem : child ∈ pre ++ child :: rest := List.mem_append_right _ (List.mem_cons_self ..)
        have hpre : ∀ other ∈ pre, other.Shown rowOf :=
          fun other hother => hshown other (List.mem_append_left _ hother)
        have hapart : ∀ other ∈ pre,
            other.info.subtreeColumns.Disjoint child.info.subtreeColumns :=
          fun other hother => (List.pairwise_append.1 hdisjoint).2.2 other hother child
            (List.mem_cons_self ..)
        obtain ⟨events, inner, below, hplaces, hevents⟩ :=
          places_branch info rest hpre (hshown child hmem) hapart (hwf child hmem)
            (hemits child hmem) hsingle hadjacent hentities f deeper hsettled
        obtain ⟨events', f', deeper', hplaces', hlevel', hevents'⟩ :=
          ih _ hsplit hmore (f.enter pre.length) (inner :: below) hlevel
            (by rw [hlength]; exact le_rfl)
        let front := closeAll deeper ++ (f.skipTo pre.length ++ [.startResource child.index])
        refine ⟨front ++ events ++ events', f', deeper', ?_, hlevel', ?_⟩
        · rw [flattenBranches, List.map_append]
          exact hplaces.append hplaces'
        · rw [List.append_assoc, hevents', hlength, Frame.skipTo_enter hnth, branchEvents,
            ← hevents]
          simp [front]

/-- Rows that are blank to the navigations bring nothing. -/
theorem places_blank (info : LevelInfo) (f : Frame) {children : List Level}
    (hshown : ∀ child ∈ children, child.Shown rowOf)
    {lead : List Cells} (hlead : ∀ cells ∈ lead, cells = Cells.blank) (deeper : List Frame) :
    Places (Level.mk info children).placement (f :: deeper) (lead.map rowOf) [] (f :: deeper) := by
  induction lead with
  | nil => exact .nil
  | cons cells rest ih =>
    rw [List.forall_mem_cons] at hlead
    have hplace : (Level.mk info children).placement (rowOf cells) (f :: deeper) =
        .ok ([], f :: deeper) := by
      rw [Level.placement, Level.place]
      refine placeAmong_blank fun child hchild => (hshown child hchild).isSubtreePresent_blank ?_
      intro c _
      rw [hlead.1]
      rfl
    exact Places.cons hplace (ih hlead.2)

/-- **Every level emits its events.** -/
theorem Level.emits (level : Level) (hwf : level.WellFormed) : level.Emits := by
  induction level with
  | mk info children ih =>
    intro rowOf e hshown hconforms row
    obtain ⟨owns, below⟩ := hwf
    obtain ⟨value, branches⟩ := e
    obtain ⟨lead, hlead, hflatten⟩ := Level.flatten_eq info children value branches
    have hchildren (child : Level) (hchild : child ∈ children) :
        child.Shown (rowOf ∘ Cells.overwrite info.columns value) :=
      hshown.below owns hchild value
    have hblank := places_blank info (.ofRow (.mk info children) row) hchildren hlead []
    obtain ⟨events, f, deeper, hplaces, hlevel, hevents⟩ :=
      places_branches [] rfl (fun child hchild => ih child hchild (below child hchild)) below
        owns.disjoint_siblings hchildren hconforms.2 (.ofRow (.mk info children) row) [] rfl le_rfl
    refine ⟨events, f :: deeper, ?_, ?_⟩
    · rw [hflatten, List.map_map, List.map_append]
      exact hblank.append hplaces
    · have hbelow : events ++ (closeAll deeper ++ f.skipTo children.length) =
          branchEvents children branches := hevents
      rw [closeAll, Frame.close, hlevel, Level.events, ← hbelow, ← List.append_assoc,
        ← List.append_assoc, List.append_assoc events]
      rfl

end

/-! ## The whole forest -/

/-- No event of an entity is the end of rows. -/
theorem Level.endOfRows_not_mem_events (level : Level) (e : Entity) :
    .endOfRows ∉ level.events e := by
  induction level generalizing e with
  | mk info children ih =>
    obtain ⟨value, branches⟩ := e
    have hbranches : .endOfRows ∉ branchEvents children branches := by
      induction children generalizing branches with
      | nil => simp [branchEvents.eq_def]
      | cons child rest ihrest =>
        rw [List.forall_mem_cons] at ih
        cases branches with
        | nil => simp [branchEvents]
        | cons es more =>
          have hrest := ihrest ih.2 more
          simp [branchEvents, ih.1, hrest]
    simp [Level.events, hbranches]

section

variable {layout : Layout} {row : Row} {inner : Frame} {deeper opened : List Frame}
  {events : List Event} {properties : List (String × Scalar)}

theorem goesOn_root : GoesOn layout.placeRow id
    (fun row => layout.root.info.isPresent row = .ok true) layout.root := by
  intro row inner deeper events frames hpresent hsame hplace
  simp [Layout.placeRow, hpresent, hsame, hplace]

theorem succeeds_root : Succeeds layout.placeRow id
    (fun row => layout.root.info.isPresent row = .ok true) layout.root := by
  intro row inner deeper properties events frames hpresent hother hread hplace
  simp [Layout.placeRow, hpresent, hother, hread, hplace]

/-- The first row starts an element of the root. -/
theorem placeRow_first (hpresent : layout.root.info.isPresent row = .ok true)
    (hread : layout.root.info.read row = .ok properties)
    (hplace : layout.root.place row (.ofRow layout.root row) [] = .ok (events, opened)) :
    layout.placeRow row [] =
      .ok (.startElement layout.root.index properties :: events, opened) := by
  simp [Layout.placeRow, hpresent, hread, hplace, closeAll]

/-- **The rows of a forest** bring the events of its roots, once what they leave open is closed. -/
theorem places_forest {rowOf : Cells → Row} (hwf : layout.root.WellFormed)
    (hshown : layout.root.Shown rowOf) {forest : List Entity}
    (hforest : layout.Conforms AdjacentDiffer forest) :
    ∃ events frames,
      Places layout.placeRow [] ((forest.flatMap layout.root.flatten).map rowOf) events frames ∧
        events ++ closeAll frames = forest.flatMap layout.root.events := by
  obtain ⟨hroots, hentities⟩ := hforest
  cases forest with
  | nil => exact ⟨[], [], .nil, rfl⟩
  | cons e es =>
    have hbelongs : ∀ e' ∈ e :: es, ∀ cells ∈ layout.root.flatten e',
        layout.root.info.isPresent (rowOf cells) = .ok true :=
      fun e' he' _ hcells => hshown.isPresent_of_mem hwf (hentities e' he').isPresentIn hcells
    have hhead := hshown.headRow (e := e) hwf
    have hpresent := hbelongs e (List.mem_cons_self ..) _
      (List.head_mem (layout.root.flatten_ne_nil e))
    obtain ⟨events, inner, deeper, hplaces, hevents⟩ :=
      places_entities goesOn_root (fun _ => succeeds_root) (layout.root.emits hwf) hshown hwf
        hentities hbelongs hroots [] []
        fun _ _ hopened => placeRow_first hpresent (hwf.owns.read_eq hhead) hopened
    exact ⟨events, inner :: deeper, hplaces, hevents⟩

end

/-- **The event reader walks the tree**: over the rows of a conforming forest it returns the events
of the roots in order and then the end of rows, without a fault. -/
theorem reads_flatten (spec : LevelSpec) (layout : Layout) (hlayout : spec.layout = .ok layout)
    (forest : List Entity) (hforest : layout.Conforms AdjacentDiffer forest) (cursor : Cursor)
    (hcursor : cursor.Serves (layout.flatten forest)) :
    (EventReader.ofCursor layout cursor).Reads
      (forest.flatMap layout.root.events ++ [.endOfRows]) none := by
  obtain ⟨events, frames, hplaces, hevents⟩ := places_forest (spec.wellFormed_of_layout hlayout)
    (spec.shown_of_layout hlayout) hforest
  have hne : .endOfRows ∉ forest.flatMap layout.root.events := by
    rw [List.mem_flatMap]
    rintro ⟨e, -, he⟩
    exact layout.root.endOfRows_not_mem_events e he
  rw [← hevents] at hne ⊢
  exact (EventReader.awaits_ofCursor hcursor).reads_of_places hplaces hne

/-- A traveller with the same trip twice, another one between them: three elements. -/
theorem reads_flatten_travellers :
    LevelSpec.travellers.layout = .ok .travellers ∧
      Layout.travellers.flatten [.traveller 1 [10, 11, 10], .traveller 2 []] =
        [⟨[.int 1, .int 10]⟩, ⟨[.int 1, .int 11]⟩, ⟨[.int 1, .int 10]⟩, ⟨[.int 2, .null]⟩] ∧
      (EventReader.ofCursor .travellers (.ofDeliveries
          [.row ⟨[.int 1, .int 10]⟩, .row ⟨[.int 1, .int 11]⟩, .row ⟨[.int 1, .int 10]⟩,
            .row ⟨[.int 2, .null]⟩])).Reads
        [.startElement 0 [("Id", .int 1)], .startResource 1,
          .startElement 1 [("Trip", .int 10)], .endElement 1,
          .startElement 1 [("Trip", .int 11)], .endElement 1,
          .startElement 1 [("Trip", .int 10)], .endElement 1, .endResource 1, .endElement 0,
          .startElement 0 [("Id", .int 2)], .startResource 1, .endResource 1, .endElement 0,
          .endOfRows] none := by
  let forest : List Entity := [.traveller 1 [10, 11, 10], .traveller 2 []]
  have hserves := Cursor.serves_ofDeliveries (Layout.travellers.flatten forest)
  exact ⟨rfl, rfl,
    reads_flatten .travellers .travellers rfl forest ⟨by decide, by decide⟩ _ hserves⟩

end QueryPlans
