import QueryPlans.Proofs.Forest.Grammar

/-!
# Proofs/Outcome/Transcript — what a reader returns, from its rows alone

Over rows that a cursor serves, a reader returns the events of the rows it can place and then the
end of rows, or the fault of the first row that it cannot place (`Layout.transcript`); it returns
that and nothing else (`EventReader.reads_iff`).
-/

namespace QueryPlans

/-! ## Transcripts -/

/-- **All that rows bring among open elements**: their events up to the end of rows or a fault. -/
def Layout.transcript (layout : Layout) : List Frame → List Row → List Event × Option ReadError
  | frames, [] => (closeAll frames ++ [.endOfRows], none)
  | frames, row :: rest =>
    match layout.placeRow row frames with
    | .error e => ([], some e)
    | .ok (events, frames) =>
      let (later, fault) := layout.transcript frames rest
      (events ++ later, fault)

namespace Layout

variable {layout : Layout} {frames frames' : List Frame} {row : Row} {rows rest later : List Row}
  {events : List Event} {e : ReadError}

/-- A row that cannot be placed ends the transcript. -/
theorem transcript_of_error (h : layout.placeRow row frames = .error e) :
    layout.transcript frames (row :: rest) = ([], some e) := by
  rw [transcript, h]

/-- The events of a placed row come before those of the rows behind it. -/
theorem transcript_of_ok (h : layout.placeRow row frames = .ok (events, frames')) :
    layout.transcript frames (row :: rest) =
      (events ++ (layout.transcript frames' rest).1, (layout.transcript frames' rest).2) := by
  rw [transcript, h]

/-- Rows that were placed come first. -/
theorem transcript_append (h : Places layout.placeRow frames rows events frames') :
    layout.transcript frames (rows ++ later) =
      (events ++ (layout.transcript frames' later).1, (layout.transcript frames' later).2) := by
  induction h with
  | nil => rfl
  | cons head tail ih => rw [List.cons_append, transcript_of_ok head, ih, List.append_assoc]

/-- A transcript without a fault has placed all rows. -/
theorem places_of_transcript (h : layout.transcript frames rows = (events, none)) :
    ∃ placed frames', Places layout.placeRow frames rows placed frames' ∧
      events = placed ++ closeAll frames' ++ [.endOfRows] := by
  induction rows generalizing frames events with
  | nil =>
    cases h
    exact ⟨[], frames, .nil, rfl⟩
  | cons row rest ih =>
    cases hplace : layout.placeRow row frames with
    | error e => cases (transcript_of_error hplace).symm.trans h
    | ok placed =>
      obtain ⟨first, between⟩ := placed
      rcases hrest : layout.transcript between rest with ⟨later, fault⟩
      rw [transcript_of_ok hplace, hrest] at h
      cases h
      obtain ⟨placed, frames', hplaces, rfl⟩ := ih hrest
      refine ⟨first ++ placed, frames', .cons hplace hplaces, ?_⟩
      simp only [List.append_assoc]

end Layout

/-! ## Readers -/

namespace EventReader

variable {layout : Layout} {r : EventReader} {cursor : Cursor} {frames : List Frame} {row : Row}
  {rows : List Row} {events events' placed : List Event} {fault fault' : Option ReadError}
  {e : ReadError}

/-- A reader reads in one way only. -/
theorem Reads.unique (h : r.Reads events fault) (h' : r.Reads events' fault') :
    events = events' ∧ fault = fault' := by
  induction h generalizing events' fault' with
  | last hread =>
    cases h' with
    | last _ => exact ⟨rfl, rfl⟩
    | failed hread' => cases hread.symm.trans hread'
    | event hread' hne _ =>
      cases hread.symm.trans hread'
      exact absurd rfl hne
  | failed hread =>
    cases h' with
    | last hread' | event hread' _ _ => cases hread.symm.trans hread'
    | failed hread' =>
      cases hread.symm.trans hread'
      exact ⟨rfl, rfl⟩
  | event hread hne _ ih =>
    cases h' with
    | last hread' =>
      cases hread.symm.trans hread'
      exact absurd rfl hne
    | failed hread' => cases hread.symm.trans hread'
    | event hread' _ tail' =>
      cases hread.symm.trans hread'
      obtain ⟨rfl, rfl⟩ := ih tail'
      exact ⟨rfl, rfl⟩

namespace Awaits

/-- A reader that comes to a row it cannot place fails. -/
theorem read_error (h : r.Awaits layout frames (row :: rows)) (hqueue : r.queue = [])
    (hplace : layout.placeRow row frames = .error e) : ∃ r', r.read = (.error e, r') := by
  have hstep : step layout ⟨frames, [], false, r.placed⟩ (some row) =
      (⟨frames, [], false, r.placed⟩, .fail e) := by
    simp [step, hplace]
  obtain ⟨cursor, hfetch, -⟩ := h.serves.fetch_cons
  have hscan := (Cursor.Pulls.cons hfetch .nil).scan_fail .nil hstep
  refine ⟨{ r with cursor, frames, queue := [], drained := false, failed := true }, ?_⟩
  simp [read, advance, h.serves.check_eq, h.failed, h.drained, h.layout, h.frames, hqueue, hscan]

/-- **What a reader returns** behind the rows that it has placed. -/
theorem reads_transcript (h : r.Awaits layout frames rows) {before : List Row}
    (hplaces : Places layout.placeRow [] before placed frames) (hne : .endOfRows ∉ r.queue) :
    r.Reads (r.queue ++ (layout.transcript frames rows).1) (layout.transcript frames rows).2 := by
  induction rows generalizing r frames before placed with
  | nil =>
    refine h.reads_queue hne fun r' h' hqueue => h'.reads_end hqueue fun hend => ?_
    exact endOfRows_not_mem_of_places hplaces (List.mem_append_right _ hend)
  | cons row rest ih =>
    refine h.reads_queue hne fun r' h' hqueue => ?_
    cases hplace : layout.placeRow row frames with
    | error e =>
      obtain ⟨r'', hread⟩ := h'.read_error hqueue hplace
      rw [Layout.transcript_of_error hplace]
      exact .failed hread
    | ok placed' =>
      obtain ⟨events, frames'⟩ := placed'
      obtain ⟨r'', hread, hawaits, rfl⟩ := h'.read_row hqueue hplace
      have hplaces' := hplaces.append (.cons hplace .nil)
      rw [Layout.transcript_of_ok hplace]
      refine (ih hawaits hplaces' fun hend => ?_).of_read_eq hread
      exact endOfRows_not_mem_of_places hplaces' (by simp [hend])

end Awaits

/-- **A reader returns its transcript**, and nothing else. -/
theorem reads_iff (h : cursor.Serves rows) :
    (ofCursor layout cursor).Reads events fault ↔ layout.transcript [] rows = (events, fault) := by
  have hawaits : (ofCursor layout cursor).Awaits layout [] rows := awaits_ofCursor h
  have hreads := hawaits.reads_transcript .nil List.not_mem_nil
  constructor
  · intro hreads'
    obtain ⟨hevents, hfault⟩ := hreads.unique hreads'
    exact Prod.ext hevents hfault
  · intro heq
    rw [heq] at hreads
    exact hreads

end EventReader

end QueryPlans
