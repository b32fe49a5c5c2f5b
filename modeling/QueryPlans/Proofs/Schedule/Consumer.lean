import QueryPlans.Proofs.Page.Groups

/-!
# Proofs/Schedule/Consumer — signals that are raised at any time

The signal may be raised between the calls of a consumer, while a pull is served, and behind the
first look that a call takes at it.  A run of a consumer (`Consumer.Plays`) has all of these.
Whatever happens in it, its cursor only serves pulls and has its signal raised (`Cursor.Moves`).  A
watched cursor does not move any more once its signal is raised, so no row is pulled behind the
signal (`Consumer.Plays.obeys`).
-/

namespace QueryPlans

namespace Cursor

variable {σ : Type} {step : σ → Option Row → σ × Verdict} {c c' c'' : Cursor} {rows : List Row}
  {k : Nat}

/-! ## Cursors that move -/

/-- Raises the signal, or leaves it as it is. -/
def signal (c : Cursor) (raised : Bool) : Cursor := if raised then c.cancel else c

/-- **A cursor later on**, after pulls and signals. -/
inductive Moves (c : Cursor) : Cursor → Prop
  | refl : Moves c c
  | fetch {c' c'' : Cursor} {outcome : Except ReadError (Option Row)} (h : Moves c c')
    (hfetch : c'.fetch = (outcome, c'')) : Moves c c''
  | cancel {c' : Cursor} (h : Moves c c') : Moves c c'.cancel

/-- Moves follow one another. -/
theorem Moves.trans (h : c.Moves c') (h' : c'.Moves c'') : c.Moves c'' := by
  induction h' with
  | refl => exact h
  | fetch _ hfetch ih => exact .fetch ih hfetch
  | cancel _ ih => exact .cancel ih

theorem moves_signal (c : Cursor) (raised : Bool) : c.Moves (c.signal raised) := by
  cases raised with
  | false => exact .refl
  | true => exact .cancel .refl

theorem HasPulled.signal (h : c.HasPulled rows c') (raised : Bool) :
    c.HasPulled rows (c'.signal raised) := by
  cases raised with
  | false => exact h
  | true => exact ⟨h.pending_eq, h.fetched_eq, h.endsLast⟩

/-- A pull is a move, whatever it brings. -/
theorem moves_of_fetch {outcome : Except ReadError (Option Row)}
    (h : c.fetch = (outcome, c')) : c.Moves c' := .fetch .refl h

/-- A scan only pulls. -/
theorem Scans.moves {s : σ} {result : Except ReadError Unit × σ × Cursor}
    (h : Scans step c s result) : c.Moves result.2.2 := by
  induction h with
  | fault hfetch | fail hfetch _ | done hfetch _ => exact moves_of_fetch hfetch
  | more hfetch _ _ ih => exact (moves_of_fetch hfetch).trans ih

/-- Nothing makes a cursor start or cease to watch. -/
theorem Moves.watching_eq (h : c.Moves c') : c'.watching = c.watching := by
  induction h with
  | refl => rfl
  | fetch _ hfetch ih =>
    rw [← ih]
    cases fetches hfetch <;> rfl
  | cancel _ ih => exact ih

/-- What was counted as fetched stays so. -/
theorem Moves.fetched_le (h : c.Moves c') : c.fetched ≤ c'.fetched := by
  induction h with
  | refl => exact Nat.le_refl _
  | fetch _ hfetch ih =>
    refine ih.trans ?_
    cases fetches hfetch with
    | refused | dry | ended | failed => exact Nat.le_refl _
    | pulled => exact Nat.le_succ _
  | cancel _ ih => exact ih

/-- The source is read from the front, and nothing comes back. -/
theorem Moves.pending_suffix (h : c.Moves c') : c'.pending <:+ c.pending := by
  induction h with
  | refl => exact List.suffix_refl _
  | fetch _ hfetch ih =>
    cases fetches hfetch with
    | refused | dry | ended => exact ih
    | failed hpending | pulled _ hpending =>
      rw [hpending] at ih
      exact (List.suffix_cons _ _).trans ih
  | cancel _ ih => exact ih

/-! ## Cursors that stop -/

/-- **A watched cursor whose signal has been raised.** -/
structure IsStopped (c : Cursor) : Prop where
  watching : c.watching = true
  cancelled : c.cancelled = true

/-- Only a raised signal is refused by a look. -/
theorem isStopped_of_check {e : ReadError} (h : c.check = .error e) : c.IsStopped := by
  rw [check] at h
  split at h
  · next hseen =>
    rw [Bool.and_eq_true] at hseen
    exact ⟨hseen.1, hseen.2⟩
  · cases h

namespace IsStopped

/-- A stopped cursor refuses every look. -/
theorem check_eq (h : c.IsStopped) : c.check = .error .cancelled := by
  simp [check, h.watching, h.cancelled]

/-- Nothing is pulled from a stopped cursor. -/
theorem fetch_eq (h : c.IsStopped) : c.fetch = (.error .cancelled, c) := by
  simp [fetch, h.check_eq]

/-- A signal is raised once. -/
theorem cancel_eq (h : c.IsStopped) : c.cancel = c := by
  rw [cancel, ← h.cancelled]

end IsStopped

/-- **A stopped cursor does not move.** -/
theorem Moves.eq_of_isStopped (h : c.Moves c') (hstopped : c.IsStopped) : c' = c := by
  induction h with
  | refl => rfl
  | fetch _ hfetch ih =>
    rw [ih, hstopped.fetch_eq] at hfetch
    cases hfetch
    rfl
  | cancel _ ih => rw [ih, hstopped.cancel_eq]

theorem IsStopped.signal (h : c.IsStopped) (raised : Bool) : (c.signal raised).IsStopped := by
  rwa [(moves_signal c raised).eq_of_isStopped h]

/-- **A watched cursor whose signal is raised by a pull**, unless it is raised before. -/
structure Heeds (k : Nat) (c : Cursor) : Prop where
  watching : c.watching = true
  cancelOn : c.cancelOn = some k
  pulls : c.pulls < k ∨ c.cancelled = true ∧ c.pulls ≤ k

/-- A cursor is not pulled behind its signal. -/
theorem Heeds.pulls_le (h : c.Heeds k) : c.pulls ≤ k := h.pulls.elim Nat.le_of_lt And.right

/-- Before that pull another one is allowed. -/
theorem Heeds.pulled (h : c.Heeds k) (hlt : c.pulls < k) : c.pulled.Heeds k where
  watching := h.watching
  cancelOn := h.cancelOn
  pulls := by
    rcases Nat.lt_or_eq_of_le (Nat.succ_le_of_lt hlt) with hlt | heq
    · exact .inl hlt
    · refine .inr ⟨?_, heq.le⟩
      simp [Cursor.pulled, h.cancelOn, ← heq]

/-- A pull raises the signal or comes before it. -/
theorem Heeds.fetch {outcome : Except ReadError (Option Row)} (h : c.Heeds k)
    (hfetch : c.fetch = (outcome, c')) : c'.Heeds k := by
  rcases h.pulls with hlt | ⟨hcancelled, -⟩
  · have hpulled := h.pulled hlt
    cases fetches hfetch with
    | refused | dry => exact h
    | ended | failed | pulled => exact ⟨hpulled.watching, hpulled.cancelOn, hpulled.pulls⟩
  · have hstopped : c.IsStopped := ⟨h.watching, hcancelled⟩
    cases hstopped.fetch_eq.symm.trans hfetch
    exact h

/-- **No move pulls behind the signal.** -/
theorem Moves.heeds (h : c.Moves c') (hheeds : c.Heeds k) : c'.Heeds k := by
  induction h with
  | refl => exact hheeds
  | fetch _ hfetch ih => exact ih.fetch hfetch
  | cancel _ ih => exact ⟨ih.watching, ih.cancelOn, .inr ⟨rfl, ih.pulls_le⟩⟩

end Cursor

/-! ## Runs of a consumer -/

/-- **A consumer of rows**, in the ways it can be called. -/
structure Consumer (κ σ α : Type) where
  /-- A call, and whether the signal is raised behind the first look that it takes. -/
  call : κ → Bool → σ → α × σ
  cancel : σ → σ
  cursor : σ → Cursor

namespace Consumer

variable {κ σ α : Type} {consumer : Consumer κ σ α} {start s s' : σ} {answers later : List α}
  {cancelOn : Option Nat}

/-- **A run of a consumer**, with its answers: calls, and signals between them. -/
inductive Plays (consumer : Consumer κ σ α) (start : σ) : List α → σ → Prop
  | nil : Plays consumer start [] start
  | call {answers : List α} {s : σ} (h : Plays consumer start answers s) (how : κ) (raised : Bool) :
    Plays consumer start (answers ++ [(consumer.call how raised s).1])
      (consumer.call how raised s).2
  | cancel {answers : List α} {s : σ} (h : Plays consumer start answers s) :
    Plays consumer start answers (consumer.cancel s)

/-- **What every call keeps** holds behind a run, and all that is answered is what calls answer. -/
theorem Plays.keeps {I : σ → Prop} {A : α → Prop} (h : consumer.Plays start answers s)
    (hstart : I start) (hcall : ∀ how raised s, I s →
      A (consumer.call how raised s).1 ∧ I (consumer.call how raised s).2)
    (hcancel : ∀ s, I s → I (consumer.cancel s)) : (∀ answer ∈ answers, A answer) ∧ I s := by
  induction h with
  | nil => exact ⟨List.forall_mem_nil _, hstart⟩
  | call _ how raised ih =>
    obtain ⟨hanswers, hs⟩ := ih
    obtain ⟨hanswer, hnext⟩ := hcall how raised _ hs
    exact ⟨List.forall_mem_append.2 ⟨hanswers, List.forall_mem_singleton.2 hanswer⟩, hnext⟩
  | cancel _ ih => exact ⟨ih.1, hcancel _ ih.2⟩

/-- A run of one call. -/
theorem plays_call (consumer : Consumer κ σ α) (start : σ) (how : κ) (raised : Bool) :
    consumer.Plays start [(consumer.call how raised start).1] (consumer.call how raised start).2 :=
  Plays.nil.call how raised

/-- Calls and signals only move the cursor of a consumer. -/
structure OnlyMoves (consumer : Consumer κ σ α) : Prop where
  call (how : κ) (raised : Bool) (s : σ) : ((consumer.cursor s).signal raised).Moves
    (consumer.cursor (consumer.call how raised s).2)
  cancel (s : σ) : consumer.cursor (consumer.cancel s) = (consumer.cursor s).cancel

/-- A run moves the cursor, and no more. -/
theorem Plays.moves (h : consumer.Plays start answers s) (honly : consumer.OnlyMoves) :
    (consumer.cursor start).Moves (consumer.cursor s) := by
  induction h with
  | nil => exact .refl
  | call _ how raised ih =>
    exact (ih.trans (Cursor.moves_signal _ raised)).trans (honly.call how raised _)
  | cancel _ ih =>
    rw [honly.cancel]
    exact .cancel ih

/-- **A consumer that pulls no row behind the signal**: none behind the pull that raises it, none in
a call behind whose first look it is raised, and none whatever is done after it has been raised. -/
structure Obeys (consumer : Consumer κ σ α) (cancelOn : Option Nat) (s : σ) : Prop where
  pulls_le : ∀ k ∈ cancelOn, 0 < k → (consumer.cursor s).pulls ≤ k
  interrupted : ∀ how, consumer.cursor (consumer.call how true s).2 = (consumer.cursor s).cancel
  stopped : (consumer.cursor s).cancelled = true → ∀ later s', consumer.Plays s later s' →
    consumer.cursor s' = consumer.cursor s

/-- A cursor that is watched from the start, and whose signal a pull may raise. -/
def watched (deliveries : List Delivery) (cancelOn : Option Nat) : Cursor :=
  { Cursor.ofDeliveries deliveries with cancelOn, watching := true }

/-- **No row is pulled behind the signal.** -/
theorem Plays.obeys (h : consumer.Plays start answers s) (honly : consumer.OnlyMoves)
    {deliveries : List Delivery} (hstart : consumer.cursor start = watched deliveries cancelOn) :
    consumer.Obeys cancelOn s := by
  have hmoves := h.moves honly
  rw [hstart] at hmoves
  have hwatching : (consumer.cursor s).watching = true := hmoves.watching_eq
  refine ⟨fun k hk hpos => ?_, fun how => ?_, fun hcancelled later s' hlater => ?_⟩
  · exact (hmoves.heeds (k := k) ⟨rfl, hk, .inl hpos⟩).pulls_le
  · exact (honly.call how true s).eq_of_isStopped ⟨hwatching, rfl⟩
  · exact (hlater.moves honly).eq_of_isStopped ⟨hwatching, hcancelled⟩

end Consumer

end QueryPlans
