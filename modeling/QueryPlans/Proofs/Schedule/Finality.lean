import QueryPlans.Proofs.Schedule.Events

/-!
# Proofs/Schedule/Finality — what follows the end of rows

A reader that has returned the end of rows has nothing else to return and pulls nothing any more
(`EventReader.AtEnd`).  But a read looks at the signal before it looks for events, so the end of
rows is returned again just as long as no watched signal has been raised
(`EventReader.RepeatsEnd`).  The iterator remembers the end of rows and does not look.
-/

namespace QueryPlans

namespace EventReader

variable {layout : Layout} {start : Cursor} {r : EventReader} {event : Event} {events : List Event}
  {answers : List (Option (Except ReadError Event))}

/-! ## Readers that are at their end -/

/-- **A reader that has returned the end of rows.**  It can have failed only for its signal. -/
structure AtEnd (r : EventReader) : Prop where
  drained : r.drained = true
  queue : ∀ event ∈ r.queue, event = .endOfRows
  ended : r.ended = true
  stopped : r.failed = true → r.cursor.IsStopped

/-- Nothing else follows the end of rows. -/
theorem Follows.queue_of_endOfRows (h : Follows layout start events r)
    (hend : .endOfRows ∈ events) :
    r.drained = true ∧ ∀ event ∈ r.queue, event = .endOfRows := by
  cases h with
  | placing _ _ _ hplaces =>
    have hnone := endOfRows_not_mem_of_places hplaces
    exact absurd (List.mem_append_left _ (List.mem_append_left _ hend)) hnone
  | closing hdrained _ _ hplaces hevents =>
    refine ⟨hdrained, fun event hevent => ?_⟩
    rcases List.append_eq_append_iff.1 hevents with ⟨rest, hplaced, -⟩ | ⟨rest, -, hrest⟩
    · have hnone := endOfRows_not_mem_of_places hplaces
      exact absurd (hplaced ▸ List.mem_append_left _ hend) hnone
    · exact List.eq_of_mem_replicate (hrest ▸ List.mem_append_right _ hevent)

namespace AtEnd

/-- A signal leaves a reader at the end. -/
theorem signal (h : r.AtEnd) (raised : Bool) : (r.signal raised).AtEnd where
  drained := h.drained
  queue := h.queue
  ended := h.ended
  stopped hfailed := (h.stopped hfailed).signal raised

/-- A stopped reader at the end may fail, and stays there. -/
theorem fail (h : r.AtEnd) (hstopped : r.cursor.IsStopped) : r.fail.AtEnd :=
  ⟨h.drained, List.forall_mem_nil _, h.ended, fun _ => hstopped⟩

/-- **The end is answered again**, and leaves the reader there. -/
theorem pop (h : r.AtEnd) : r.pop.1 = .ok .endOfRows ∧ r.pop.2.AtEnd := by
  cases hqueue : r.queue with
  | nil =>
    rw [EventReader.pop, hqueue]
    exact ⟨rfl, h.drained, List.forall_mem_nil _, h.ended, h.stopped⟩
  | cons first rest =>
    have hall := h.queue
    rw [hqueue, List.forall_mem_cons] at hall
    rw [pop_of_queue hqueue, hall.1]
    exact ⟨rfl, h.drained, hall.2, by simp, h.stopped⟩

/-- **A read at the end** pulls nothing and gives the end of rows again, unless the signal has been
raised. -/
theorem readWith (h : r.AtEnd) (raised : Bool) :
    (r.readWith raised).2.AtEnd ∧ (r.readWith raised).2.cursor = r.cursor.signal raised ∧
      ((r.readWith raised).1 = .ok .endOfRows ↔ ¬ r.cursor.IsStopped) := by
  rw [EventReader.readWith]
  cases hfailed : r.failed with
  | true =>
    refine ⟨h.signal raised, rfl, iff_of_false (fun heq => ?_) (not_not_intro (h.stopped hfailed))⟩
    cases heq
  | false =>
    cases hcheck : r.cursor.check with
    | error e =>
      have hstopped := Cursor.isStopped_of_check hcheck
      refine ⟨(h.signal raised).fail (hstopped.signal raised), rfl,
        iff_of_false (fun heq => ?_) (not_not_intro hstopped)⟩
      cases heq
    | ok _ =>
      have hproceed : (r.signal raised).proceed = (r.signal raised).pop := by
        have hdrained : (r.signal raised).drained = true := h.drained
        rw [proceed, hdrained]
        rfl
      obtain ⟨hend, hnext⟩ := (h.signal raised).pop
      dsimp only [Bool.false_eq_true, if_false]
      rw [hproceed]
      refine ⟨hnext, cursor_pop _, iff_of_true hend fun hstopped => ?_⟩
      cases hstopped.check_eq.symm.trans hcheck

/-- **A call at the end** leaves a reader there. -/
theorem call (h : r.AtEnd) (how : Asking) (raised : Bool) :
    (r.call how raised).2.AtEnd ∧ (r.call how raised).2.cursor = r.cursor.signal raised := by
  obtain ⟨hnext, hcursor, -⟩ := h.readWith raised
  cases how with
  | read => exact ⟨hnext, hcursor⟩
  | next =>
    rw [EventReader.call, h.ended]
    exact ⟨h.signal raised, rfl⟩

end AtEnd

/-! ## Runs -/

/-- A reader that returns an event has not failed. -/
theorem failed_of_call_eq_ok {how : Asking} {raised : Bool}
    (h : (r.call how raised).1 = some (.ok event)) : r.failed = false := by
  by_contra hfailed
  rw [Bool.not_eq_false] at hfailed
  cases how <;> simp [call, readWith, hfailed] at h

theorem mem_eventsOf : event ∈ eventsOf answers ↔ some (.ok event) ∈ answers := by
  rw [eventsOf, List.mem_filterMap]
  refine ⟨?_, fun hmem => ⟨_, hmem, rfl⟩⟩
  rintro ⟨_ | e | other, hmem, hevent⟩
  · cases hevent
  · cases hevent
  · cases hevent
    exact hmem

/-- A reader that has not failed and has returned the end of rows is at its end. -/
theorem Played.atEnd (h : Played layout start answers r) (hopen : r.failed = false)
    (hend : some (.ok .endOfRows) ∈ answers) : r.AtEnd := by
  have hmem := mem_eventsOf.2 hend
  obtain ⟨hdrained, hqueue⟩ := (h.follows hopen).queue_of_endOfRows hmem
  exact ⟨hdrained, hqueue, h.ended_iff.2 hmem, fun hfailed => by cases hopen.symm.trans hfailed⟩

/-- **From the end of rows on a reader is at its end**, whatever is done to it. -/
theorem atEnd_of_plays (h : consumer.Plays (ofCursor layout start) answers r)
    (hstart : start.fetched = 0) (hends : start.EndsLast)
    (hend : some (.ok .endOfRows) ∈ answers) : r.AtEnd := by
  induction h with
  | nil => cases hend
  | @call answers r hplays how raised ih =>
    by_cases hbefore : some (.ok .endOfRows) ∈ answers
    · exact ((ih hbefore).call how raised).1
    · -- This very call returns the end of rows, so the reader had not failed before.
      have hanswer : some (.ok .endOfRows) = (r.call how raised).1 :=
        List.mem_singleton.1 ((List.mem_append.1 hend).resolve_left hbefore)
      have hplayed := Played.of_plays hplays hstart hends
      have hnext := hplayed.call hstart hends how raised
      refine hnext.atEnd (Bool.eq_false_iff.2 fun hfailed => ?_) hend
      obtain ⟨e, he⟩ := hnext.failed_iff.1 hfailed
      rw [← hanswer, List.mem_append, List.mem_singleton] at he
      have hfailed' := hplayed.failed_iff.2 ⟨e, he.resolve_right nofun⟩
      cases (failed_of_call_eq_ok hanswer.symm).symm.trans hfailed'
  | cancel _ ih => exact (ih hend).signal true

/-- **What is left behind the end of rows.** -/
structure RepeatsEnd (answers : List (Option (Except ReadError Event))) (r : EventReader) :
    Prop where
  /-- Nothing is pulled. -/
  cursor_eq (how : Asking) (raised : Bool) :
    (r.call how raised).2.cursor = r.cursor.signal raised
  /-- The end of rows is returned again as long as no watched signal has been raised. -/
  read_iff (raised : Bool) :
    (r.call .read raised).1 = some (.ok .endOfRows) ↔ ¬ r.cursor.IsStopped
  /-- The first read behind the signal is a fault. -/
  cancelled (hstopped : r.cursor.IsStopped) (hno : ∀ e, some (.error e) ∉ answers)
    (raised : Bool) : (r.call .read raised).1 = some (.error .cancelled)
  /-- Behind a fault there is no other. -/
  failed (herror : ∃ e, some (.error e) ∈ answers) (raised : Bool) :
    (r.call .read raised).1 = some (.error .usedAfterFailure)
  next_eq (raised : Bool) : (r.call .next raised).1 = none

/-- Behind the end of rows, every further run is as described. -/
theorem Played.repeatsEnd (h : Played layout start answers r) (hend : r.AtEnd) :
    RepeatsEnd answers r where
  cursor_eq how raised := (hend.call how raised).2
  read_iff raised := Option.some_inj.trans (hend.readWith raised).2.2
  cancelled hstopped hno raised := call_read_of_isStopped (h.failed_eq_false hno) hstopped raised
  failed herror raised := by rw [call_read_of_failed (h.failed_iff.2 herror)]
  next_eq raised := by
    rw [EventReader.call, hend.ended]
    rfl

/-- **The end of rows is final but for the signal.**  Once it has been returned, over whatever a
source delivers and with the signal raised at any time, nothing is pulled any more and the end of
rows is returned again and again, until a watched signal is raised: then the next read is a fault,
and so are all reads behind it. -/
theorem endOfRows_repeats (layout : Layout) (deliveries : List Delivery) (cancelOn : Option Nat)
    (watching : Bool) (answers : List (Option (Except ReadError Event))) (r : EventReader)
    (h : consumer.Plays
      (ofCursor layout { Cursor.ofDeliveries deliveries with cancelOn, watching }) answers r)
    (hend : some (.ok .endOfRows) ∈ answers) : RepeatsEnd answers r :=
  (Played.of_plays h rfl nofun).repeatsEnd (atEnd_of_plays h rfl nofun hend)

/-- Without rows the end comes first, and it comes again until the signal is raised. -/
theorem endOfRows_repeats_orders :
    let r := ((ofCursor .orders (Consumer.watched [] none)).call .read false).2
    let later := (r.cancel.call .read false).2
    (r.call .read false).1 = some (.ok .endOfRows) ∧ (r.cancel.call .next false).1 = none ∧
      (r.cancel.call .read false).1 = some (.error .cancelled) ∧
      (later.call .read false).1 = some (.error .usedAfterFailure) ∧
      later.cursor.pulls = r.cursor.pulls := by
  intro r later
  have hplays : consumer.Plays (ofCursor .orders (Consumer.watched [] none))
      [some (.ok .endOfRows)] r := consumer.plays_call _ .read false
  have hlater := hplays.cancel.call .read false
  have hend := endOfRows_repeats .orders [] none true _ _ hplays (by simp)
  have hcancelled := endOfRows_repeats .orders [] none true _ _ hplays.cancel (by simp)
  have hfailed := endOfRows_repeats .orders [] none true _ _ hlater (by simp)
  have hfault : (r.cancel.call .read false).1 = some (.error .cancelled) :=
    hcancelled.cancelled ⟨rfl, rfl⟩ (by simp) false
  have hcursor : later.cursor = r.cancel.cursor := hcancelled.cursor_eq .read false
  refine ⟨(hend.read_iff false).2 fun hstopped => ?_, hcancelled.next_eq false, hfault,
    hfailed.failed ⟨.cancelled, ?_⟩ false, ?_⟩
  · cases hstopped.cancelled
  · exact List.mem_append_right _ (List.mem_singleton.2 hfault.symm)
  · rw [hcursor]
    rfl

/-- **The end of rows is not final**: without rows it is returned at once, but once the signal is
raised it is returned no more. -/
theorem endOfRows_not_final : ¬ ∀ layout deliveries cancelOn watching answers r,
    consumer.Plays (ofCursor layout { Cursor.ofDeliveries deliveries with cancelOn, watching })
      answers r → some (.ok .endOfRows) ∈ answers →
        (r.call .read false).1 = some (.ok .endOfRows) := by
  intro h
  have hplays : consumer.Plays (ofCursor .orders (Consumer.watched [] none))
      [some (.ok .endOfRows)] _ := consumer.plays_call _ .read false
  cases h .orders [] none true _ _ hplays.cancel (by simp)

end EventReader

end QueryPlans
