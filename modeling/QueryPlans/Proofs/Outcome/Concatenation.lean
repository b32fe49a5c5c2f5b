import QueryPlans.Proofs.Outcome.Entries
import QueryPlans.Proofs.Outcome.Transcript

/-!
# Proofs/Outcome/Concatenation — nothing is left over between root entities

Where one root entity ends and another begins, rows fall into two parts that do not see each other.
The groups of both parts are the groups of all rows; the first row of the second part closes
whatever elements the first part left open and is otherwise placed as if it were the first row of
all.  So each consumer gives what it gives for the first part and then what it gives for the second
(`parts_concatenate`).
-/

namespace QueryPlans

namespace Layout

variable {layout : Layout} {f : Frame} {deeper frames frames' opened : List Frame} {row last : Row}
  {rows later : List Row} {events : List Event} {Q : Row → Prop}

/-- **Rows in two parts**, where one root entity ends and another begins. -/
def PartsBetween (layout : Layout) (rows later : List Row) : Prop :=
  ∀ a ∈ rows.getLast?, ∀ b ∈ later.head?, layout.root.info.sameEntity a b = .ok false

/-- No group goes on from the first part to the second. -/
theorem PartsBetween.groups_append (h : layout.PartsBetween rows later) :
    layout.groups (rows ++ later) = layout.groups rows ++ layout.groups later :=
  List.splitBy_append fun a ha b hb => LevelInfo.sameEntity_of_ok (h a ha b hb)

/-! ## The open root element -/

/-- **The open root element** shows the entity of the row that was placed last. -/
theorem head_of_placeRow (h : layout.placeRow row frames = .ok (events, frames'))
    (hframes : ∀ f ∈ frames.head?, Q f.row) (hrow : Q row) :
    ∃ f ∈ frames'.head?, Q f.row ∧
      layout.root.info.isSame f.row.toCells row.toCells = true := by
  obtain ⟨-, hplaced⟩ := placeRow_cases h
  cases hplaced with
  | same hsame hplace =>
    obtain ⟨f', deeper, rfl, hkept, -⟩ := Level.place_remains hplace
    exact ⟨f', rfl, hkept ▸ hframes _ rfl, hkept ▸ LevelInfo.sameEntity_of_ok hsame⟩
  | other _ _ hplace =>
    obtain ⟨f', deeper, rfl, rfl, -⟩ := Level.place_remains hplace
    exact ⟨f', rfl, hrow, LevelInfo.isSame_self _ _⟩

/-- The outermost frame is of the entity of the last row. -/
theorem head_of_places (h : Places layout.placeRow frames rows events frames')
    (hframes : ∀ f ∈ frames.head?, Q f.row) (hrows : ∀ row ∈ rows, Q row)
    (hlast : last ∈ rows.getLast?) :
    ∃ f ∈ frames'.head?, Q f.row ∧
      layout.root.info.isSame f.row.toCells last.toCells = true := by
  induction h with
  | nil => cases hlast
  | @cons row rest _ _ _ between _ head tail ih =>
    rw [List.forall_mem_cons] at hrows
    obtain ⟨f, hf, hq, hsame⟩ := head_of_placeRow head hframes hrows.1
    cases rest with
    | nil =>
      cases tail
      obtain rfl := Option.some.inj hlast
      exact ⟨f, hf, hq, hsame⟩
    | cons next rest =>
      refine ih (fun f' hf' => ?_) hrows.2 hlast
      exact Option.mem_unique hf hf' ▸ hq

/-! ## The second part -/

/-- A row of another root entity closes what is open, and is placed like a first row. -/
theorem placeRow_of_other (h : layout.placeRow row [] = .ok (events, opened))
    (hother : ∀ f ∈ frames.head?, layout.root.info.sameEntity f.row row = .ok false) :
    layout.placeRow row frames = .ok (closeAll frames ++ events, opened) := by
  obtain ⟨hpresent, hplaced⟩ := placeRow_cases h
  cases hplaced with
  | other _ hread hplace =>
    cases frames with
    | nil => exact h
    | cons f deeper => simp [placeRow, hpresent, hother f rfl, hread, hplace, closeAll]

/-- Rows of another root entity close all that is open, and begin anew. -/
theorem transcript_of_other (h : layout.transcript [] rows = (events, none))
    (hother : ∀ f ∈ frames.head?, ∀ row ∈ rows.head?,
      layout.root.info.sameEntity f.row row = .ok false) :
    layout.transcript frames rows = (closeAll frames ++ events, none) := by
  cases rows with
  | nil =>
    cases h
    rfl
  | cons row rest =>
    cases hplace : layout.placeRow row [] with
    | error e => cases (transcript_of_error hplace).symm.trans h
    | ok placed =>
      obtain ⟨first, between⟩ := placed
      have hplace' := placeRow_of_other hplace fun f hf => hother f hf row rfl
      obtain ⟨hevents, hfault⟩ := Prod.mk.inj ((transcript_of_ok hplace).symm.trans h)
      rw [transcript_of_ok hplace', hfault, List.append_assoc, hevents]

/-- **The transcript of both parts** is that of the first, without its end, and that of the
second. -/
theorem PartsBetween.transcript_append (h : layout.PartsBetween rows later)
    (hwf : layout.root.WellFormed) (hshows : layout.ShowsLevels (rows ++ later))
    {events' : List Event} (hrows : layout.transcript [] rows = (events ++ [.endOfRows], none))
    (hlater : layout.transcript [] later = (events', none)) :
    layout.transcript [] (rows ++ later) = (events ++ events', none) := by
  obtain ⟨placed, frames, hplaces, hevents⟩ := places_of_transcript hrows
  obtain rfl : events = placed ++ closeAll frames := List.append_cancel_right hevents
  have hother : ∀ f ∈ frames.head?, ∀ row ∈ later.head?,
      layout.root.info.sameEntity f.row row = .ok false := by
    intro f hf row hrow
    have hlast : ∃ last, last ∈ rows.getLast? := by
      cases hplaces with
      | nil => cases hf
      | cons _ _ => exact ⟨_, List.getLast?_eq_some_getLast (List.cons_ne_nil _ _)⟩
    obtain ⟨last, hlast⟩ := hlast
    obtain ⟨f', hf', hmem, hsame⟩ :=
      head_of_places (Q := (· ∈ rows)) hplaces nofun (fun _ => id) hlast
    obtain rfl := Option.mem_unique hf hf'
    rw [hshows.sameEntity_eq hwf (List.mem_append_left _ hmem)
      (List.mem_append_right _ (List.mem_of_mem_head? hrow)),
      layout.root.info.isEquivalence_isSame.congr hsame,
      LevelInfo.sameEntity_of_ok (h last hlast row hrow)]
  rw [Layout.transcript_append hplaces, transcript_of_other hlater hother, List.append_assoc]

end Layout

/-! ## Both consumers -/

/-- **Root entities leave nothing behind.**  Where rows of one root entity are followed by rows of
another, a materializer that comes to the end of the first part without a fault answers for all rows
what it answers for the first part, its end left out, and then what it answers for the second part,
faults included.  A reader that comes to the end of each part without a fault returns for all rows
what it returns for the first part, the end of rows left out, and then what it returns for the
second. -/
theorem parts_concatenate (spec : LevelSpec) (layout : Layout) (hlayout : spec.layout = .ok layout)
    (rows later : List Row) (hwide : ∀ row ∈ rows ++ later, layout.width ≤ row.width)
    (hparts : layout.PartsBetween rows later) :
    (∀ limit n,
      let consume (rows : List Row) :=
        Materializer.ofCursor layout (.ofDeliveries (rows.map .row)) limit
      (∀ i < n, ∃ entry, (consume rows).answer i = .ok (some entry)) →
        (consume rows).answer n = .ok none →
        (∀ i < n, (consume (rows ++ later)).answer i = (consume rows).answer i) ∧
          ∀ j, (consume (rows ++ later)).answer (n + j) = (consume later).answer j) ∧
    (let consume (rows : List Row) := EventReader.ofCursor layout (.ofDeliveries (rows.map .row))
      ∀ events events', (consume rows).Reads (events ++ [.endOfRows]) none →
        (consume later).Reads events' none →
        ∀ returned fault, (consume (rows ++ later)).Reads returned fault ↔
          returned = events ++ events' ∧ fault = none) := by
  have hwf := LevelSpec.wellFormed_of_layout hlayout
  have hshows := LevelSpec.showsLevels hlayout hwide
  refine ⟨?_, ?_⟩
  · intro limit n consume hentries hend
    have hrows : layout.ShowsLevels rows := fun row hrow =>
      hshows row (List.mem_append_left later hrow)
    have hlater : layout.ShowsLevels later := fun row hrow =>
      hshows row (List.mem_append_right rows hrow)
    simp only [consume, Materializer.answer_ofDeliveries hwf hrows] at hentries hend ⊢
    simp only [Materializer.answer_ofDeliveries hwf hshows,
      Materializer.answer_ofDeliveries hwf hlater, hparts.groups_append]
    rw [List.map_append]
    exact answerAt_append hentries hend
  · intro consume events events' hrows hlater returned fault
    have hserves (part : List Row) := Cursor.serves_ofDeliveries part
    rw [EventReader.reads_iff (hserves rows)] at hrows
    rw [EventReader.reads_iff (hserves later)] at hlater
    rw [EventReader.reads_iff (hserves (rows ++ later)),
      hparts.transcript_append hwf hshows hrows hlater, Prod.mk.injEq, eq_comm (a := returned),
      eq_comm (a := fault)]

/-- The second traveller has a row too many; the first one is not touched by that. -/
theorem parts_concatenate_travellers :
    let rows : List Row := [⟨[.int 1, .int 10]⟩, ⟨[.int 1, .int 11]⟩]
    let later : List Row := [⟨[.int 2, .int 12]⟩, ⟨[.int 2, .int 13]⟩, ⟨[.int 2, .null]⟩]
    let m := Materializer.ofCursor .travellers (.ofDeliveries ((rows ++ later).map .row)) 2
    let r := EventReader.ofCursor .travellers (.ofDeliveries ((rows ++ later).map .row))
    let events : List Event := [.startElement 0 [("Id", .int 1)], .startResource 1,
      .startElement 1 [("Trip", .int 10)], .endElement 1,
      .startElement 1 [("Trip", .int 11)], .endElement 1, .endResource 1, .endElement 0]
    let events' : List Event := [.startElement 0 [("Id", .int 2)], .startResource 1,
      .startElement 1 [("Trip", .int 12)], .endElement 1,
      .startElement 1 [("Trip", .int 13)], .endElement 1, .endResource 1, .endElement 0, .endOfRows]
    (∃ entry, m.answer 0 = .ok (some entry)) ∧ m.answer 1 = .error (.groupTooLarge 2) ∧
      r.Reads (events ++ events') none := by
  intro rows later m r events events'
  have hwide : ∀ row ∈ rows ++ later, Layout.travellers.width ≤ row.width := by decide
  have hparts : Layout.travellers.PartsBetween rows later := by
    rintro _ ⟨⟩ _ ⟨⟩
    rfl
  obtain ⟨hanswers, hreads⟩ :=
    parts_concatenate .travellers .travellers rfl rows later hwide hparts
  obtain ⟨hbefore, hbehind⟩ := hanswers 2 1 (fun i hi => by
    obtain rfl := Nat.lt_one_iff.1 hi
    exact ⟨_, rfl⟩) rfl
  refine ⟨⟨_, hbefore 0 Nat.one_pos⟩, hbehind 0, (hreads events events' ?_ ?_ _ _).2 ⟨rfl, rfl⟩⟩
  · exact (EventReader.reads_iff (Cursor.serves_ofDeliveries rows)).2 rfl
  · exact (EventReader.reads_iff (Cursor.serves_ofDeliveries later)).2 rfl

end QueryPlans
