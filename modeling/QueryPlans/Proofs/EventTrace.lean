import QueryPlans.Proofs.EventReader

/-!
# Proofs/EventTrace — what a reader has returned so far

A reader may stop anywhere: behind some events, at the end of rows, at a fault of its source or at a
row that cannot be placed.  Whatever the cursor delivers, what was returned and what is still to be
returned are together the events of the rows placed so far, and the end of all that they left open
once the rows are at an end (`EventReader.Traces`).  A row that cannot be placed has no part in it.
-/

namespace QueryPlans

namespace EventReader

/-- **Events returned one after the other**, up to the first end of rows. -/
inductive Returns : EventReader → List Event → EventReader → Prop
  | nil {r : EventReader} : Returns r [] r
  | snoc {r r' r'' : EventReader} {events : List Event} {event : Event}
    (init : Returns r events r') (hne : .endOfRows ∉ events)
    (hread : r'.read = (.ok event, r'')) : Returns r (events ++ [event]) r''

/-- A reader that reads on up to the end of rows has returned all of it. -/
theorem Returns.append_reads {r r' : EventReader} {events later : List Event}
    (h : Returns r events r') (hne : .endOfRows ∉ events) (hreads : Reads r' later none) :
    ∃ r'', Returns r (events ++ later) r'' ∧ .endOfRows ∈ later := by
  generalize hfault : (none : Option ReadError) = fault at hreads
  induction hreads generalizing events with
  | last hread => exact ⟨_, h.snoc hne hread, List.mem_singleton_self _⟩
  | failed _ => cases hfault
  | @event _ _ event _ _ hread hother _ ih =>
    have hnext : .endOfRows ∉ events ++ [event] := by simp [hne, hother.symm]
    obtain ⟨r'', hreturns, hmem⟩ := ih (h.snoc hne hread) hnext hfault
    exact ⟨r'', by simpa using hreturns, List.mem_cons_of_mem _ hmem⟩

/-! ## One scan -/

/-- What a step has made of a row, by its verdict. -/
theorem step_cases {layout : Layout} {s s' : Progress} {row : Option Row}
    {verdict : Cursor.Verdict} (h : step layout s row = (s', verdict)) :
    match verdict with
    | .fail e => ∃ r, row = some r ∧ layout.placeRow r s.frames = .error e
    | .more => ∃ r, row = some r ∧ layout.placeRow r s.frames = .ok ([], s'.frames) ∧
        s'.queue = [] ∧ s'.drained = s.drained
    | .done =>
      (∃ r, row = some r ∧ layout.placeRow r s.frames = .ok (s'.queue, s'.frames) ∧
        s'.queue ≠ [] ∧ s'.drained = s.drained) ∨
      (row = none ∧ s'.queue = closeAll s.frames ++ [.endOfRows] ∧ s'.drained = true) := by
  cases row with
  | none =>
    cases h
    exact .inr ⟨rfl, rfl, rfl⟩
  | some row =>
    rw [step] at h
    cases hplace : layout.placeRow row s.frames with
    | error e =>
      rw [hplace] at h
      cases h
      exact ⟨row, rfl, hplace⟩
    | ok placed =>
      obtain ⟨events, frames⟩ := placed
      rw [hplace] at h
      cases events with
      | nil =>
        cases h
        exact ⟨row, rfl, hplace, rfl, rfl⟩
      | cons event queue =>
        cases h
        exact .inl ⟨row, rfl, hplace, List.cons_ne_nil event queue, rfl⟩

/-- **The pull that ends a scan** among open elements. -/
inductive LastPull (layout : Layout) (frames : List Frame) (c : Cursor) :
    Except ReadError Unit × Progress × Cursor → Prop
  | fault {c' : Cursor} {s : Progress} {e : ReadError} (hfetch : c.fetch = (.error e, c')) :
    LastPull layout frames c (.error e, s, c')
  | unplaced {c' : Cursor} {s : Progress} {row : Row} {e : ReadError}
    (hfetch : c.fetch = (.ok (some row), c')) (hplace : layout.placeRow row frames = .error e) :
    LastPull layout frames c (.error e, s, c')
  | placed {c' : Cursor} {s : Progress} {row : Row} (hfetch : c.fetch = (.ok (some row), c'))
    (hplace : layout.placeRow row frames = .ok (s.queue, s.frames)) (hne : s.queue ≠ [])
    (hdrained : s.drained = false) : LastPull layout frames c (.ok (), s, c')
  | ended {c' : Cursor} {s : Progress} (hfetch : c.fetch = (.ok none, c'))
    (hqueue : s.queue = closeAll frames ++ [.endOfRows]) (hdrained : s.drained = true) :
    LastPull layout frames c (.ok (), s, c')

/-- A step is done at the end of rows. -/
theorem scans (layout : Layout) (c : Cursor) (s : Progress) :
    Cursor.Scans (step layout) c s (c.scan (step layout) s) :=
  Cursor.scans_scan (fun _ => Cursor.Verdict.noConfusion) c s

/-- **A scan places rows without events** up to its last pull. -/
theorem lastPull_of_scans {layout : Layout} {c : Cursor} {s : Progress}
    {result : Except ReadError Unit × Progress × Cursor} (h : Cursor.Scans (step layout) c s result)
    (hqueue : s.queue = []) (hdrained : s.drained = false) :
    ∃ rows c' frames, c.Pulls rows c' ∧ Places layout.placeRow s.frames rows [] frames ∧
      LastPull layout frames c' result := by
  induction h with
  | @fault c _ s _ hfetch => exact ⟨[], c, s.frames, .nil, .nil, .fault hfetch⟩
  | @fail c _ s _ _ _ hfetch hstep =>
    obtain ⟨row, rfl, hplace⟩ := step_cases hstep
    exact ⟨[], c, s.frames, .nil, .nil, .unplaced hfetch hplace⟩
  | @done c _ s _ _ hfetch hstep =>
    rcases step_cases hstep with ⟨row, rfl, hplace, hne, hsame⟩ | ⟨rfl, hend, hdrained'⟩
    · exact ⟨[], c, s.frames, .nil, .nil, .placed hfetch hplace hne (hsame.trans hdrained)⟩
    · exact ⟨[], c, s.frames, .nil, .nil, .ended hfetch hend hdrained'⟩
  | @more c _ s s' row _ hfetch hstep _ ih =>
    obtain ⟨_, ⟨⟩, hplace, hempty, hsame⟩ := step_cases hstep
    obtain ⟨rows, c'', frames, hpulls, hplaces, hlast⟩ := ih hempty (hsame.trans hdrained)
    exact ⟨row :: rows, c'', frames, .cons hfetch hpulls, .cons hplace hplaces, hlast⟩

/-! ## Traces -/

/-- **What a reader has returned and still has to return**, over whatever cursor it started with. -/
inductive Traces (layout : Layout) (start : Cursor) (events : List Event) (r : EventReader) : Prop
  | placing {rows : List Row} (hlayout : r.layout = layout) (hfailed : r.failed = false)
    (hdrained : r.drained = false) (hpulls : start.Pulls rows r.cursor)
    (hplaces : Places layout.placeRow [] rows (events ++ r.queue) r.frames) :
    Traces layout start events r
  | closing {rows : List Row} {c : Cursor} {placed : List Event} {frames : List Frame}
    (hfailed : r.failed = false) (hdrained : r.drained = true) (hpulls : start.Pulls rows c)
    (hend : c.fetch = (.ok none, r.cursor))
    (hplaces : Places layout.placeRow [] rows placed frames)
    (hevents : events ++ r.queue = placed ++ closeAll frames ++ [.endOfRows]) :
    Traces layout start events r

/-- **What keeps a reader from its next event** behind the rows that were placed. -/
inductive Blocked (layout : Layout) (start : Cursor) (events : List Event) (e : ReadError) : Prop
  | fault {rows : List Row} {c c' : Cursor} {frames : List Frame} (hpulls : start.Pulls rows c)
    (hplaces : Places layout.placeRow [] rows events frames) (hfetch : c.fetch = (.error e, c')) :
    Blocked layout start events e
  | unplaced {rows : List Row} {c c' : Cursor} {frames : List Frame} {row : Row}
    (hpulls : start.Pulls rows c) (hplaces : Places layout.placeRow [] rows events frames)
    (hfetch : c.fetch = (.ok (some row), c')) (hplace : layout.placeRow row frames = .error e) :
    Blocked layout start events e

variable {layout : Layout} {start : Cursor} {r r' : EventReader} {event : Event}
  {events queue : List Event} {e : ReadError}

theorem traces_ofCursor (layout : Layout) (start : Cursor) :
    Traces layout start [] (ofCursor layout start) := .placing rfl rfl rfl .nil .nil

theorem pop_of_queue (hqueue : r.queue = event :: queue) :
    r.pop = (.ok event, { r with
      queue := queue, current := event.level?, ended := r.ended || event == .endOfRows }) := by
  simp only [pop, hqueue]

/-- A reader with events to return moves the first of them. -/
theorem Traces.pop (h : Traces layout start events r) (hqueue : r.queue ≠ [])
    (hpop : r.pop = (.ok event, r')) : Traces layout start (events ++ [event]) r' := by
  obtain ⟨first, queue, hcons⟩ := List.exists_cons_of_ne_nil hqueue
  rw [pop_of_queue hcons] at hpop
  cases hpop
  have hmoved : events ++ r.queue = events ++ [event] ++ queue := by
    rw [hcons, List.append_assoc, List.singleton_append]
  cases h with
  | placing hlayout hfailed hdrained hpulls hplaces =>
    exact .placing hlayout hfailed hdrained hpulls (hplaces.append_eq hmoved)
  | closing hfailed hdrained hpulls hend hplaces hevents =>
    exact .closing hfailed hdrained hpulls hend hplaces (hmoved.symm.trans hevents)

/-- A reader after a scan. -/
def afterScan (r : EventReader) (s : Progress) (cursor : Cursor) : EventReader :=
  { r with
    cursor, frames := s.frames, queue := s.queue, drained := s.drained, placed := s.placed }

/-- **A reader that has to pull** comes to its last pull. -/
theorem Traces.scan (h : Traces layout start events r) (hdrained : r.drained = false)
    (hqueue : r.queue = []) :
    r.failed = false ∧ r.layout = layout ∧ ∃ rows c frames, start.Pulls rows c ∧
      Places layout.placeRow [] rows events frames ∧
      LastPull layout frames c
        (r.cursor.scan (step layout) ⟨r.frames, r.queue, r.drained, r.placed⟩) := by
  cases h with
  | closing _ hdrained' => cases hdrained.symm.trans hdrained'
  | @placing rows hlayout hfailed _ hpulls hplaces =>
    have hscans := scans layout r.cursor ⟨r.frames, r.queue, r.drained, r.placed⟩
    obtain ⟨more, c, frames, hmore, hplaces', hlast⟩ :=
      lastPull_of_scans hscans hqueue hdrained
    rw [hqueue] at hplaces
    refine ⟨hfailed, hlayout, rows ++ more, c, frames, hpulls.append hmore, ?_, hlast⟩
    simpa using hplaces.append hplaces'

/-- Popping does not fail. -/
theorem pop_ne_error (hpop : r.pop = (.error e, r')) : False := by
  rw [EventReader.pop] at hpop
  split at hpop <;> cases hpop

/-- While events are queued, or the rows have ended, nothing is pulled. -/
theorem advance_of_queue (hcheck : r.cursor.check = .ok ())
    (hpop : (r.drained || !r.queue.isEmpty) = true) : r.advance = r.pop := by
  simp only [advance, hcheck, hpop, if_true]

/-- Else rows are scanned until one gives events. -/
theorem advance_of_scan (hcheck : r.cursor.check = .ok ()) (hlayout : r.layout = layout)
    (hpop : (r.drained || !r.queue.isEmpty) = false) {outcome : Except ReadError Unit}
    {s : Progress} {cursor : Cursor}
    (hscan : r.cursor.scan (step layout) ⟨r.frames, r.queue, r.drained, r.placed⟩ =
      (outcome, s, cursor)) :
    r.advance = match outcome with
      | .error e => (.error e, r.afterScan s cursor)
      | .ok () => (r.afterScan s cursor).pop := by
  subst hlayout
  simp only [advance, hcheck, hpop, hscan, afterScan, Bool.false_eq_true, if_false]
  cases outcome <;> rfl

/-- **What an advance comes to**: it fails by the signal or where it is blocked, or else it pops the
next event of the trace. -/
inductive Advances (layout : Layout) (start : Cursor) (events : List Event) (r : EventReader) : Prop
  | fails {e : ReadError} {r' : EventReader} (hadvance : r.advance = (.error e, r'))
    (hreason : r.cursor.check = .error e ∨ Blocked layout start events e) :
    Advances layout start events r
  | pops {r' : EventReader} (hadvance : r.advance = r'.pop)
    (htraces : Traces layout start events r') (hqueue : r'.queue = [] → .endOfRows ∈ events) :
    Advances layout start events r

/-- **One advance from any state of a trace**, by its queue and by what its scan comes to. -/
theorem Traces.advances (h : Traces layout start events r) : Advances layout start events r := by
  cases hcheck : r.cursor.check with
  | error e =>
    have hadvance : r.advance = (.error e, r) := by simp only [advance, hcheck]
    exact .fails hadvance (.inl hcheck)
  | ok _ =>
    cases hpop : (r.drained || !r.queue.isEmpty) with
    | true =>
      refine .pops (advance_of_queue hcheck hpop) h fun hqueue => ?_
      cases h with
      | placing _ _ hdrained => simp [hdrained, hqueue] at hpop
      | closing _ _ _ _ _ hevents =>
        rw [hqueue, List.append_nil] at hevents
        exact hevents ▸ List.mem_append_right _ (List.mem_singleton_self _)
    | false =>
      obtain ⟨hdrained, hqueue⟩ : r.drained = false ∧ r.queue = [] := by simpa using hpop
      obtain ⟨hfailed, hlayout, rows, c, frames, hpulls, hplaces, hlast⟩ :=
        h.scan hdrained hqueue
      rcases hscan : r.cursor.scan (step layout) ⟨r.frames, r.queue, r.drained, r.placed⟩ with
        ⟨outcome, s, cursor⟩
      have hadvance := advance_of_scan hcheck hlayout hpop hscan
      rw [hscan] at hlast
      cases hlast with
      | fault hfetch => exact .fails hadvance (.inr (.fault hpulls hplaces hfetch))
      | unplaced hfetch hplace =>
        exact .fails hadvance (.inr (.unplaced hpulls hplaces hfetch hplace))
      | placed hfetch hplace hsome hdrained' =>
        refine .pops hadvance ?_ fun hempty => absurd hempty hsome
        exact .placing hlayout hfailed hdrained' (hpulls.append (.cons hfetch .nil))
          (hplaces.append ((Places.cons hplace .nil).append_eq (List.append_nil _)))
      | ended hfetch hend hdrained' =>
        refine .pops hadvance ?_ fun hempty => ?_
        · refine .closing hfailed hdrained' hpulls hfetch hplaces ?_
          rw [List.append_assoc, ← hend]
          rfl
        · exact absurd (hend.symm.trans hempty)
            (List.append_ne_nil_of_right_ne_nil _ (List.cons_ne_nil _ _))

/-- **Every event that is returned is the next of the trace**, up to the end of rows. -/
theorem Traces.advance_ok (h : Traces layout start events r) (hne : .endOfRows ∉ events)
    (hadvance : r.advance = (.ok event, r')) : Traces layout start (events ++ [event]) r' := by
  cases h.advances with
  | fails hfails _ => cases hfails.symm.trans hadvance
  | pops hpops htraces hqueue =>
    exact htraces.pop (fun hempty => hne (hqueue hempty)) (hpops.symm.trans hadvance)

/-- **A reader fails** by its signal, or where it is blocked. -/
theorem Traces.advance_error (h : Traces layout start events r)
    (hadvance : r.advance = (.error e, r')) :
    r.cursor.check = .error e ∨ Blocked layout start events e := by
  cases h.advances with
  | fails hfails hreason =>
    cases hfails.symm.trans hadvance
    exact hreason
  | pops hpops _ _ => exact (pop_ne_error (hpops.symm.trans hadvance)).elim

theorem Traces.failed_eq (h : Traces layout start events r) : r.failed = false := by
  cases h with
  | placing _ hfailed _ _ _ => exact hfailed
  | closing hfailed _ _ _ _ _ => exact hfailed

/-- **An event that is read** is the next one of the trace. -/
theorem Traces.read_ok (h : Traces layout start events r) (hne : .endOfRows ∉ events)
    (hread : r.read = (.ok event, r')) : Traces layout start (events ++ [event]) r' := by
  rcases hadvance : r.advance with ⟨error | event', r''⟩
  · simp [read, h.failed_eq, hadvance] at hread
  · simp only [read, h.failed_eq, hadvance, Bool.false_eq_true, if_false] at hread
    cases hread
    exact h.advance_ok hne hadvance

/-- **A read fails** for the signal, or where the rows give no further event. -/
theorem Traces.read_error (h : Traces layout start events r) (hread : r.read = (.error e, r')) :
    r.cursor.check = .error e ∨ Blocked layout start events e := by
  rcases hadvance : r.advance with ⟨error | event', r''⟩
  · simp only [read, h.failed_eq, hadvance, Bool.false_eq_true, if_false] at hread
    cases hread
    exact h.advance_error hadvance
  · simp [read, h.failed_eq, hadvance] at hread

/-- **Whatever a reader returns is a trace.** -/
theorem Returns.traces (h : (ofCursor layout start).Returns events r) :
    Traces layout start events r := by
  induction h with
  | nil => exact traces_ofCursor layout start
  | snoc _ hne hread ih => exact ih.read_ok hne hread

/-- A reader that returned the end of rows has placed all of them and closed what they left
open. -/
theorem Traces.of_endOfRows (h : Traces layout start events r) (hend : .endOfRows ∈ events)
    (hplaced : ∀ rows placed frames, Places layout.placeRow [] rows placed frames →
      .endOfRows ∉ placed ++ closeAll frames) :
    ∃ rows placed frames c, start.Pulls rows c ∧ c.fetch = (.ok none, r.cursor) ∧
      Places layout.placeRow [] rows placed frames ∧
      events = placed ++ closeAll frames ++ [.endOfRows] := by
  cases h with
  | placing _ _ _ _ hplaces =>
    have hne := hplaced _ _ _ hplaces
    exact absurd (List.mem_append_left _ (List.mem_append_left _ hend)) hne
  | @closing rows c placed frames _ _ hpulls hfetch hplaces hevents =>
    refine ⟨rows, placed, frames, c, hpulls, hfetch, hplaces, ?_⟩
    have hqueue : r.queue = [] := by
      by_contra hne
      rw [← List.dropLast_append_getLast hne, ← List.append_assoc] at hevents
      have hinit := (List.append_inj' hevents rfl).1
      exact hplaced rows placed frames hplaces (hinit ▸ List.mem_append_left _ hend)
    rwa [hqueue, List.append_nil] at hevents

end EventReader

end QueryPlans
