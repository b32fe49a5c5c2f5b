import QueryPlans.Proofs.Forest.Grammar
import QueryPlans.Proofs.Page.Prefix
import QueryPlans.Proofs.Schedule.Entries

/-!
# Proofs/Schedule/Events — a reader that may be cancelled at any time

Until it fails, a reader has returned or still has to return the events of the rows that it has
pulled, whenever the signal is raised (`EventReader.Follows`); so no event is returned that needs a
row behind the signal (`EventReader.Brings`).  Together with materializers this gives what is left
of any consumption once its signal is raised, it has failed, or it has come to its end
(`consumptions_end`).
-/

namespace QueryPlans

namespace EventReader

/-! ## Calls behind whose first look the signal is raised -/

/-- A reader is asked for an event, or its iterator is. -/
inductive Asking where
  | read
  | next

/-- Raises the signal, or leaves it as it is. -/
def signal (r : EventReader) (raised : Bool) : EventReader :=
  { r with cursor := r.cursor.signal raised }

/-- Nothing is returned behind a failure. -/
def fail (r : EventReader) : EventReader := { r with failed := true, queue := [] }

/-- A read behind its first look at the signal. -/
def proceed (r : EventReader) : Except ReadError Event × EventReader :=
  if r.drained || !r.queue.isEmpty then r.pop
  else
    match r.cursor.scan (step r.layout) ⟨r.frames, r.queue, r.drained, r.placed⟩ with
    | (.error e, s, cursor) => (.error e, (r.afterScan s cursor).fail)
    | (.ok (), s, cursor) => (r.afterScan s cursor).pop

/-- A read, and whether the signal is raised behind its first look. -/
def readWith (r : EventReader) (raised : Bool) : Except ReadError Event × EventReader :=
  if r.failed then (.error .usedAfterFailure, r.signal raised)
  else
    match r.cursor.check with
    | .error e => (.error e, (r.signal raised).fail)
    | .ok () => (r.signal raised).proceed

/-- **A call**, and whether the signal is raised behind its first look. -/
def call (r : EventReader) (how : Asking) (raised : Bool) :
    Option (Except ReadError Event) × EventReader :=
  match how with
  | .read => (some (r.readWith raised).1, (r.readWith raised).2)
  | .next =>
    if r.ended || r.failed then (none, r.signal raised)
    else (some (r.readWith raised).1, (r.readWith raised).2)

/-- The event reader as a consumer of rows, by its calls and as an iterator. -/
def consumer : Consumer Asking EventReader (Option (Except ReadError Event)) where
  call how raised r := r.call how raised
  cancel := cancel
  cursor := cursor

/-- What is left of a read behind its first look comes to one of these. -/
inductive Proceeds (r : EventReader) : Except ReadError Event × EventReader → Prop
  | popped (h : (r.drained || !r.queue.isEmpty) = true) : Proceeds r r.pop
  | failed {e : ReadError} {s : Progress} {cursor : Cursor} (hdrained : r.drained = false)
    (hqueue : r.queue = []) (hscan : r.cursor.scan (step r.layout)
      ⟨r.frames, r.queue, r.drained, r.placed⟩ = (.error e, s, cursor)) :
    Proceeds r (.error e, (r.afterScan s cursor).fail)
  | scanned {s : Progress} {cursor : Cursor} (hdrained : r.drained = false)
    (hqueue : r.queue = []) (hscan : r.cursor.scan (step r.layout)
      ⟨r.frames, r.queue, r.drained, r.placed⟩ = (.ok (), s, cursor)) :
    Proceeds r (r.afterScan s cursor).pop

/-- A read behind its first look does one of these, by its queue and by what an advance does. -/
theorem proceeds (r : EventReader) : r.Proceeds r.proceed := by
  rw [proceed]
  split
  · next h => exact .popped h
  · next h =>
    rw [Bool.not_eq_true, Bool.or_eq_false_iff, Bool.not_eq_false', List.isEmpty_iff] at h
    split
    · next hscan => exact .failed h.1 h.2 hscan
    · next hscan => exact .scanned h.1 h.2 hscan

/-- A read that advances and then pops is a read of the state that it advances to. -/
theorem read_of_advance_pop {r r' : EventReader} (hfailed : r.failed = false)
    (h : r.advance = r'.pop) : r.read = r'.pop := by
  rcases hpop : r'.pop with ⟨e | event, r''⟩
  · exact (pop_ne_error hpop).elim
  · simp [read, hfailed, h, hpop]

theorem readWith_false (r : EventReader) : r.readWith false = r.read := by
  have hsignal : r.signal false = r := rfl
  rw [readWith, hsignal]
  cases hfailed : r.failed with
  | true => simp [read, hfailed]
  | false =>
    cases hcheck : r.cursor.check with
    | error e => simp [read, advance, fail, hfailed, hcheck]
    | ok _ =>
      have hproceeds := r.proceeds
      dsimp only [Bool.false_eq_true, if_false]
      generalize r.proceed = result at hproceeds ⊢
      cases hproceeds with
      | popped h => exact (read_of_advance_pop hfailed (advance_of_queue hcheck h)).symm
      | failed hdrained hqueue hscan =>
        have hadvance := advance_of_scan hcheck rfl (by simp [hdrained, hqueue]) hscan
        simp [read, fail, hfailed, hadvance]
      | scanned hdrained hqueue hscan =>
        have hadvance := advance_of_scan hcheck rfl (by simp [hdrained, hqueue]) hscan
        exact (read_of_advance_pop hfailed hadvance).symm

/-- Calls that are not interrupted. -/
theorem call_false (r : EventReader) :
    r.call .read false = (some r.read.1, r.read.2) ∧ r.call .next false = r.next? := by
  refine ⟨by rw [call, readWith_false], ?_⟩
  rw [call, next?, readWith_false]
  rfl

/-! ## What a call changes -/

theorem cursor_pop (r : EventReader) : r.pop.2.cursor = r.cursor := by
  rw [pop]
  split <;> rfl

/-- Popping fails nothing. -/
theorem failed_pop (r : EventReader) : r.pop.2.failed = r.failed := by
  rw [pop]
  split <;> rfl

/-- A read only moves the cursor. -/
theorem moves_proceed (r : EventReader) : r.cursor.Moves r.proceed.2.cursor := by
  have hproceeds := r.proceeds
  have hscans := (scans r.layout r.cursor ⟨r.frames, r.queue, r.drained, r.placed⟩).moves
  generalize r.proceed = result at hproceeds ⊢
  cases hproceeds with
  | popped =>
    rw [cursor_pop]
    exact .refl
  | failed _ _ hscan =>
    rw [hscan] at hscans
    exact hscans
  | scanned _ _ hscan =>
    rw [hscan] at hscans
    rw [cursor_pop]
    exact hscans

/-- So it does with a signal behind its first look. -/
theorem moves_readWith (r : EventReader) (raised : Bool) :
    (r.cursor.signal raised).Moves (r.readWith raised).2.cursor := by
  rw [readWith]
  split
  · exact .refl
  · split
    · exact .refl
    · exact (r.signal raised).moves_proceed

theorem onlyMoves_consumer : consumer.OnlyMoves where
  call how raised r := by
    cases how with
    | read => exact r.moves_readWith raised
    | next =>
      change (r.cursor.signal raised).Moves (r.call .next raised).2.cursor
      rw [call]
      split
      · exact .refl
      · exact r.moves_readWith raised
  cancel _ := rfl

/-! ## Events of the rows that were pulled -/

/-- **What a reader has returned and still has to return**, over rows that were pulled. -/
inductive Follows (layout : Layout) (start : Cursor) (events : List Event) (r : EventReader) : Prop
  | placing {rows : List Row} (hlayout : r.layout = layout) (hdrained : r.drained = false)
    (hpulled : start.HasPulled rows r.cursor)
    (hplaces : Places layout.placeRow [] rows (events ++ r.queue) r.frames) :
    Follows layout start events r
  | closing {rows : List Row} {placed : List Event} {frames : List Frame} {j : Nat}
    (hdrained : r.drained = true) (hpulled : start.HasPulled rows r.cursor)
    (hend : r.cursor.pending = []) (hplaces : Places layout.placeRow [] rows placed frames)
    (hevents : events ++ r.queue =
      placed ++ closeAll frames ++ List.replicate (j + 1) .endOfRows) :
    Follows layout start events r

/-- **Events that need no more rows** than were pulled: those of whole rows, and those that close
what is open where the source has come to its end. -/
def Brings (layout : Layout) (deliveries : List Delivery) (fetched : Nat) (events : List Event) :
    Prop :=
  ∃ rows rest placed frames, deliveries = rows.map .row ++ rest ∧ rows.length ≤ fetched ∧
    Places layout.placeRow [] rows placed frames ∧
    (events <+: placed ∨
      rest = [] ∧ ∃ j, events <+: placed ++ closeAll frames ++ List.replicate j .endOfRows)

variable {layout : Layout} {start : Cursor} {r r' : EventReader} {event : Event}
  {events : List Event} {s : Progress} {cursor : Cursor}

/-- Events stay those of the rows, however many more are fetched. -/
theorem Brings.mono {deliveries : List Delivery} {fetched fetched' : Nat}
    (h : Brings layout deliveries fetched events) (hle : fetched ≤ fetched') :
    Brings layout deliveries fetched' events := by
  obtain ⟨rows, rest, placed, frames, hdeliveries, hlength, hplaces, hevents⟩ := h
  exact ⟨rows, rest, placed, frames, hdeliveries, hlength.trans hle, hplaces, hevents⟩

namespace Follows

/-- A signal places no row. -/
theorem signal (h : Follows layout start events r) (raised : Bool) :
    Follows layout start events (r.signal raised) := by
  cases h with
  | placing hlayout hdrained hpulled hplaces =>
    exact .placing hlayout hdrained (hpulled.signal raised) hplaces
  | closing hdrained hpulled hend hplaces hevents =>
    refine .closing hdrained (hpulled.signal raised) ?_ hplaces hevents
    cases raised <;> exact hend

/-- **The events so far are those of rows that were fetched**, or of all rows with the end. -/
theorem brings (h : Follows layout start events r) (hstart : start.fetched = 0) :
    Brings layout start.pending r.cursor.fetched events := by
  have hlength {rows : List Row} (hpulled : start.HasPulled rows r.cursor) :
      rows.length ≤ r.cursor.fetched := by
    rw [hpulled.fetched_eq, hstart, Nat.zero_add]
  cases h with
  | placing _ _ hpulled hplaces =>
    exact ⟨_, _, _, _, hpulled.pending_eq, hlength hpulled, hplaces, .inl (List.prefix_append ..)⟩
  | closing _ hpulled hend hplaces hevents =>
    exact ⟨_, _, _, _, hpulled.pending_eq, hlength hpulled, hplaces,
      .inr ⟨hend, _, hevents ▸ List.prefix_append ..⟩⟩

/-- A reader that is drained and has nothing to return has returned the end of rows. -/
theorem endOfRows_mem (h : Follows layout start events r) (hdrained : r.drained = true)
    (hqueue : r.queue = []) : .endOfRows ∈ events := by
  cases h with
  | placing _ hdrained' => cases hdrained'.symm.trans hdrained
  | closing _ _ _ _ hevents =>
    rw [hqueue, List.append_nil] at hevents
    exact hevents ▸ List.mem_append_right _ (List.mem_replicate.2 ⟨Nat.succ_ne_zero _, rfl⟩)

/-- **The next event** of those that are still to be returned, or the end of rows once more. -/
theorem pop (h : Follows layout start events r) (hsome : r.queue = [] → r.drained = true)
    (hpop : r.pop = (.ok event, r')) :
    Follows layout start (events ++ [event]) r' ∧
      (r'.ended = true ↔ r.ended = true ∨ event = .endOfRows ∧ r.queue ≠ []) := by
  -- Behind the last event the end is handed out again, which the count of ends keeps track of.
  cases hqueue : r.queue with
  | nil =>
    have hdrained := hsome hqueue
    rw [EventReader.pop, hqueue] at hpop
    cases hpop
    refine ⟨?_, by simp⟩
    cases h with
    | placing _ hdrained' => cases hdrained'.symm.trans hdrained
    | @closing _ _ _ j _ hpulled hend hplaces hevents =>
      refine .closing (j := j + 1) hdrained hpulled hend hplaces ?_
      rw [hqueue, List.append_nil] at hevents
      rw [List.append_nil, hevents, List.append_assoc, ← List.replicate_succ']
  | cons first queue =>
    have hmoved : events ++ r.queue = events ++ [first] ++ queue := by
      rw [hqueue, List.append_assoc, List.singleton_append]
    rw [pop_of_queue hqueue] at hpop
    cases hpop
    refine ⟨?_, by simp⟩
    cases h with
    | placing hlayout hdrained hpulled hplaces =>
      exact .placing hlayout hdrained hpulled (hplaces.append_eq hmoved)
    | closing hdrained hpulled hend hplaces hevents =>
      exact .closing hdrained hpulled hend hplaces (hmoved.symm.trans hevents)

/-- **A scan that succeeds** brings the events of a row, or of the end. -/
theorem scan (h : Follows layout start events r) (hends : start.EndsLast)
    (hdrained : r.drained = false) (hqueue : r.queue = [])
    (hscan : r.cursor.scan (step r.layout) ⟨r.frames, r.queue, r.drained, r.placed⟩ =
      (.ok (), s, cursor)) :
    Follows layout start events (r.afterScan s cursor) ∧ s.queue ≠ [] := by
  cases h with
  | closing hdrained' => cases hdrained.symm.trans hdrained'
  | placing hlayout _ hpulled hplaces =>
    have hscans := scans r.layout r.cursor ⟨r.frames, r.queue, r.drained, r.placed⟩
    rw [hscan] at hscans
    obtain ⟨more, c, frames, hmore, hplaces', hlast⟩ :=
      lastPull_of_scans hscans hqueue hdrained
    rw [hlayout] at hplaces' hlast
    rw [hqueue, List.append_nil] at hplaces
    have hpulled' := hpulled.trans (Cursor.hasPulled_of_pulls hmore)
    have hplaced := hplaces.append hplaces'
    rw [List.append_nil] at hplaced
    cases hlast with
    | placed hfetch hplace hsome hdrained' =>
      refine ⟨.placing hlayout hdrained' (hpulled'.trans (Cursor.hasPulled_of_fetch hfetch)) ?_,
        hsome⟩
      exact hplaced.append ((Places.cons hplace .nil).append_eq (List.append_nil _))
    | ended hfetch hend hdrained' =>
      have hpulled'' := hpulled'.trans (Cursor.hasPulled_of_fetch hfetch)
      rw [Option.toList_none, List.append_nil] at hpulled''
      refine ⟨.closing (j := 0) hdrained' hpulled''
        ((hpulled'.endsLast hends).pending_of_fetch hfetch) hplaced ?_, ?_⟩
      · rw [List.append_assoc]
        exact congrArg (events ++ ·) hend
      · rw [hend]
        exact List.append_ne_nil_of_right_ne_nil _ (List.cons_ne_nil _ _)

end Follows

/-! ## Runs -/

/-- The events among answers. -/
def eventsOf (answers : List (Option (Except ReadError Event))) : List Event :=
  answers.filterMap fun answer => answer.bind Except.toOption

section

variable {answers : List (Option (Except ReadError Event))} {e : ReadError}

@[simp] theorem eventsOf_concat_error (answers : List (Option (Except ReadError Event)))
    (e : ReadError) : eventsOf (answers ++ [some (.error e)]) = eventsOf answers := by
  simp [eventsOf, Except.toOption]

@[simp] theorem eventsOf_concat_none (answers : List (Option (Except ReadError Event))) :
    eventsOf (answers ++ [none]) = eventsOf answers := by
  simp [eventsOf]

@[simp] theorem eventsOf_concat_event (answers : List (Option (Except ReadError Event)))
    (event : Event) : eventsOf (answers ++ [some (.ok event)]) = eventsOf answers ++ [event] := by
  simp [eventsOf, Except.toOption]

/-- **A reader after a run**: it has failed exactly if it has said so, has ended exactly if it has
returned the end of rows, and has returned nothing but what its rows bring. -/
structure Played (layout : Layout) (start : Cursor)
    (answers : List (Option (Except ReadError Event))) (r : EventReader) : Prop where
  failed_iff : r.failed = true ↔ ∃ e, some (.error e) ∈ answers
  ended_iff : r.ended = true ↔ .endOfRows ∈ eventsOf answers
  follows : r.failed = false → Follows layout start (eventsOf answers) r
  brings : Brings layout start.pending r.cursor.fetched (eventsOf answers)

namespace Played

/-- A signal is no answer. -/
theorem signal (h : Played layout start answers r) (raised : Bool) :
    Played layout start answers (r.signal raised) where
  failed_iff := h.failed_iff
  ended_iff := h.ended_iff
  follows hopen := (h.follows hopen).signal raised
  brings := h.brings.mono (Cursor.moves_signal r.cursor raised).fetched_le

/-- A call that fails. -/
theorem concat_error (h : Played layout start answers r) (hfailed : r'.failed = true)
    (hended : r'.ended = r.ended) (hmoves : r.cursor.Moves r'.cursor) :
    Played layout start (answers ++ [some (.error e)]) r' where
  failed_iff := iff_of_true hfailed ⟨e, by simp⟩
  ended_iff := by rw [hended, eventsOf_concat_error, h.ended_iff]
  follows hopen := by cases hfailed.symm.trans hopen
  brings := by
    rw [eventsOf_concat_error]
    exact h.brings.mono hmoves.fetched_le

/-- A call of the iterator behind its end. -/
theorem concat_none (h : Played layout start answers r) :
    Played layout start (answers ++ [none]) r where
  failed_iff := by simpa using h.failed_iff
  ended_iff := by rw [eventsOf_concat_none, h.ended_iff]
  follows := by simpa using h.follows
  brings := by simpa using h.brings

/-- A call that returns an event. -/
theorem concat_pop (h : Played layout start answers r) (hopen : r.failed = false)
    (hstart : start.fetched = 0) (hsome : r.queue = [] → r.drained = true) :
    Played layout start (answers ++ [some r.pop.1]) r.pop.2 := by
  have hfailed := r.failed_pop
  rcases hpop : r.pop with ⟨e | event, r'⟩
  · exact (pop_ne_error hpop).elim
  · obtain ⟨hfollows, hended⟩ := (h.follows hopen).pop hsome hpop
    rw [hpop] at hfailed
    refine ⟨?_, ?_, fun _ => ?_, ?_⟩
    · rw [hfailed, h.failed_iff]
      simp
    · rw [hended, h.ended_iff, eventsOf_concat_event, List.mem_append, List.mem_singleton,
        eq_comm (a := event)]
      refine ⟨Or.imp_right And.left, fun hmem => hmem.elim .inl fun hevent => ?_⟩
      by_cases hqueue : r.queue = []
      · exact .inl ((h.follows hopen).endOfRows_mem (hsome hqueue) hqueue)
      · exact .inr ⟨hevent, hqueue⟩
    · rwa [eventsOf_concat_event]
    · rw [eventsOf_concat_event]
      exact hfollows.brings hstart

/-- **One read** of an open reader: its answer is added and the state is again one after a run. -/
theorem proceed (h : Played layout start answers r) (hopen : r.failed = false)
    (hstart : start.fetched = 0) (hends : start.EndsLast) :
    Played layout start (answers ++ [some r.proceed.1]) r.proceed.2 := by
  have hproceeds := r.proceeds
  have hscans := (scans r.layout r.cursor ⟨r.frames, r.queue, r.drained, r.placed⟩).moves
  generalize r.proceed = result at hproceeds ⊢
  cases hproceeds with
  | popped hpop => exact h.concat_pop hopen hstart fun hqueue => by simpa [hqueue] using hpop
  | failed _ _ hscan =>
    rw [hscan] at hscans
    exact h.concat_error rfl rfl hscans
  | @scanned s cursor hdrained hqueue hscan =>
    rw [hscan] at hscans
    obtain ⟨hfollows, hne⟩ := (h.follows hopen).scan hends hdrained hqueue hscan
    have hplayed : Played layout start answers (r.afterScan s cursor) :=
      ⟨h.failed_iff, h.ended_iff, fun _ => hfollows, h.brings.mono hscans.fetched_le⟩
    exact hplayed.concat_pop hopen hstart fun hqueue => absurd hqueue hne

/-- The same with the first look, of a reader that may have failed. -/
theorem readWith (h : Played layout start answers r) (hstart : start.fetched = 0)
    (hends : start.EndsLast) (raised : Bool) :
    Played layout start (answers ++ [some (r.readWith raised).1]) (r.readWith raised).2 := by
  rw [EventReader.readWith]
  cases hfailed : r.failed with
  | true => exact (h.signal raised).concat_error hfailed rfl .refl
  | false =>
    cases r.cursor.check with
    | error e => exact (h.signal raised).concat_error rfl rfl .refl
    | ok _ => exact (h.signal raised).proceed hfailed hstart hends

/-- **A call, interrupted or not**, leaves a reader as it should. -/
theorem call (h : Played layout start answers r) (hstart : start.fetched = 0)
    (hends : start.EndsLast) (how : Asking) (raised : Bool) :
    Played layout start (answers ++ [(r.call how raised).1]) (r.call how raised).2 := by
  cases how with
  | read => exact h.readWith hstart hends raised
  | next =>
    rw [EventReader.call]
    split
    · exact (h.signal raised).concat_none
    · exact h.readWith hstart hends raised

/-- **Every run** leaves a reader as it should. -/
theorem of_plays (h : consumer.Plays (ofCursor layout start) answers r) (hstart : start.fetched = 0)
    (hends : start.EndsLast) : Played layout start answers r := by
  induction h with
  | nil =>
    have hfollows : Follows layout start [] (ofCursor layout start) :=
      .placing rfl rfl (.refl start) .nil
    exact ⟨by simp [ofCursor], by simp [ofCursor, eventsOf], fun _ => hfollows,
      hfollows.brings hstart⟩
  | call _ how raised ih => exact ih.call hstart hends how raised
  | cancel _ ih => exact ih.signal true

end Played

/-! ## What a call answers -/

/-- **A reader that ends cleanly**, whatever was done so far. -/
structure EndsCleanly (layout : Layout) (deliveries : List Delivery)
    (answers : List (Option (Except ReadError Event))) (r : EventReader) : Prop where
  /-- No event needs a row that was not pulled. -/
  brings : Brings layout deliveries r.cursor.fetched (eventsOf answers)
  /-- The first look at the signal is a fault, unless there was another; the iterator does not look
  once it has returned the end of rows. -/
  cancelled : r.cursor.cancelled = true → (∀ e, some (.error e) ∉ answers) → ∀ raised,
    (r.call .read raised).1 = some (.error .cancelled) ∧
      (.endOfRows ∉ eventsOf answers → (r.call .next raised).1 = some (.error .cancelled))
  /-- Behind a fault there is only the fault of using the reader again, and nothing is pulled. -/
  failed : (∃ e, some (.error e) ∈ answers) → ∀ raised,
    (r.call .read raised).1 = some (.error .usedAfterFailure) ∧ (r.call .next raised).1 = none ∧
      ∀ how, (r.call how raised).2.cursor.pulls = r.cursor.pulls

/-- A reader that has failed says just that. -/
theorem call_read_of_failed (hfailed : r.failed = true) (raised : Bool) :
    r.call .read raised = (some (.error .usedAfterFailure), r.signal raised) := by
  rw [EventReader.call, EventReader.readWith, hfailed]
  rfl

/-- A stopped reader is cancelled, even with events in its queue. -/
theorem call_read_of_isStopped (hopen : r.failed = false) (hstopped : r.cursor.IsStopped)
    (raised : Bool) : (r.call .read raised).1 = some (.error .cancelled) := by
  rw [EventReader.call, EventReader.readWith, hopen, hstopped.check_eq]
  rfl

/-- A reader fails only with an answer that says so. -/
theorem Played.failed_eq_false (h : Played layout start answers r)
    (hno : ∀ e, some (.error e) ∉ answers) : r.failed = false := by
  refine Bool.eq_false_iff.2 fun hfailed => ?_
  obtain ⟨e, he⟩ := h.failed_iff.1 hfailed
  exact hno e he

/-- All of this holds behind every run. -/
theorem Played.endsCleanly {deliveries : List Delivery} (h : Played layout start answers r)
    (hpending : start.pending = deliveries) (hwatching : r.cursor.watching = true) :
    EndsCleanly layout deliveries answers r where
  brings := hpending ▸ h.brings
  cancelled hcancelled hno raised := by
    have hopen := h.failed_eq_false hno
    have hread := call_read_of_isStopped hopen ⟨hwatching, hcancelled⟩ raised
    refine ⟨hread, fun hne => ?_⟩
    have hended : r.ended = false := Bool.eq_false_iff.2 fun hended => hne (h.ended_iff.1 hended)
    have hnext : r.call .next raised = r.call .read raised := by
      simp [EventReader.call, hended, hopen]
    rw [hnext, hread]
  failed herror raised := by
    have hfailed := h.failed_iff.2 herror
    have hread := call_read_of_failed hfailed raised
    have hpulls : (r.cursor.signal raised).pulls = r.cursor.pulls := by cases raised <;> rfl
    have hnext : r.call .next raised = (none, r.signal raised) := by
      rw [EventReader.call, hfailed, Bool.or_true]
      rfl
    refine ⟨by rw [hread], by rw [hnext], fun how => ?_⟩
    cases how with
    | read =>
      rw [hread]
      exact hpulls
    | next =>
      rw [hnext]
      exact hpulls

end

end EventReader

/-! ## Both consumers -/

/-- **Cancellation and failure end a consumption cleanly.**  Over whatever a source delivers, with
the signal raised at any time and as often as one likes, no consumer pulls a row behind the signal.
A materializer answers for whole groups only; a reader returns what the rows bring that were pulled.
The first look at the signal is a fault unless the consumption has ended before, and behind a fault,
and behind the end of a materializer, nothing more comes and nothing is pulled. -/
theorem consumptions_end (layout : Layout) (deliveries : List Delivery) (cancelOn : Option Nat) :
    let source := Consumer.watched deliveries cancelOn
    (∀ limit pageSize answers m,
      Materializer.consumer.Plays { Materializer.ofCursor layout source limit with pageSize }
        answers m →
      Materializer.consumer.Obeys cancelOn m ∧
        m.EndsCleanly layout deliveries pageSize answers) ∧
    ∀ answers r, EventReader.consumer.Plays (EventReader.ofCursor layout source) answers r →
      EventReader.consumer.Obeys cancelOn r ∧ r.EndsCleanly layout deliveries answers := by
  intro source
  refine ⟨fun limit pageSize answers m h => ?_, fun answers r h => ?_⟩
  · have hplayed : Materializer.Played layout deliveries pageSize answers m :=
      (Materializer.played_ofCursor layout source rfl rfl limit pageSize).of_plays h
    have hwatching : m.cursor.watching = true :=
      (h.moves Materializer.onlyMoves_consumer).watching_eq
    exact ⟨h.obeys Materializer.onlyMoves_consumer rfl, hplayed.endsCleanly hwatching⟩
  · have hplayed := EventReader.Played.of_plays h rfl nofun
    have hwatching : r.cursor.watching = true :=
      (h.moves EventReader.onlyMoves_consumer).watching_eq
    exact ⟨h.obeys EventReader.onlyMoves_consumer rfl, hplayed.endsCleanly rfl hwatching⟩

/-- The pull that comes to the second order raises the signal: the first order is whole and is still
answered, and the failure of the source is never seen.  The reader is cancelled behind its first
event. -/
theorem consumptions_end_orders :
    let source := Consumer.watched Delivery.orders (some 4)
    let m := (Materializer.ofCursor .orders source 3).next.2
    let r := (EventReader.ofCursor .orders source).read.2.cancel
    m.next.1 = .error .cancelled ∧ m.next.2.cursor.pulls ≤ 4 ∧ m.next.2.buffered = 0 ∧
      m.next.2.next.1 = .ok none ∧ r.read.1 = .error .cancelled ∧ r.read.2.next?.1 = none := by
  intro source m r
  obtain ⟨hmaterializer, hreader⟩ := consumptions_end .orders Delivery.orders (some 4)
  obtain ⟨entry, hentry⟩ :
      ∃ entry, (Materializer.ofCursor .orders source 3).next.1 = .ok (some entry) := ⟨_, rfl⟩
  obtain ⟨event, hevent⟩ :
      ∃ event, (EventReader.ofCursor .orders source).read.1 = .ok event := ⟨_, rfl⟩
  have hnext (m : Materializer) : Materializer.consumer.call () false m = m.next := m.call_false
  have hread (r : EventReader) : EventReader.consumer.call .read false r =
      (some r.read.1, r.read.2) := r.call_false.1
  have hmplays : Materializer.consumer.Plays (.ofCursor .orders source 3) [.ok (some entry)] m := by
    have hplays := Materializer.consumer.plays_call (.ofCursor .orders source 3) () false
    rwa [hnext, hentry] at hplays
  have hrplays : EventReader.consumer.Plays (.ofCursor .orders source) [some (.ok event)] r := by
    have hplays :=
      (EventReader.consumer.plays_call (.ofCursor .orders source) .read false).cancel
    rwa [hread, hevent] at hplays
  have hmcancelled : m.next.1 = .error .cancelled := by
    rw [← m.call_false]
    refine (hmaterializer 3 none _ _ hmplays).2.cancelled rfl ?_ false
    simp [Materializer.Ends]
  have hrcancelled : r.read.1 = .error .cancelled := by
    have hcall := ((hreader _ _ hrplays).2.cancelled rfl (by simp) false).1
    rw [r.call_false.1] at hcall
    exact Option.some.inj hcall
  have hmplays' := hmplays.call () false
  rw [hnext, hmcancelled] at hmplays'
  have hrplays' := hrplays.call .read false
  rw [hread, hrcancelled] at hrplays'
  obtain ⟨hobeys, hends⟩ := hmaterializer 3 none _ _ hmplays'
  refine ⟨hmcancelled, hobeys.pulls_le 4 rfl (by decide), hends.released ⟨.cancelled, by simp⟩, ?_,
    hrcancelled, ?_⟩
  · rw [← m.next.2.call_false]
    exact (hends.ended (.inl ⟨.cancelled, by simp⟩) false).1
  · rw [← r.read.2.call_false.2]
    exact ((hreader _ _ hrplays').2.failed ⟨.cancelled, by simp⟩ false).2.1

end QueryPlans
