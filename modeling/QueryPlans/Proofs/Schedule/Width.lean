import QueryPlans.Proofs.Outcome.Faults
import QueryPlans.Proofs.Schedule.Events

/-!
# Proofs/Schedule/Width — rows that are wide enough

The width of a layout lies beyond every column that a consumer reads, those of the continuation
included (`LevelSpec.within_of_layout`).  Whatever is done with a consumer, it reads no rows but
those that its source delivers, the row behind a group among them.  So a column that is out of range
is a column of the layout, and a row that was delivered does not have it (`faults_founded`); over
rows that are as wide as the layout there is none (`width_suffices`).
-/

namespace QueryPlans

/-- **A fault that is founded**: a column that is out of range is one of those that are read, and
one of the rows that are read does not have it. -/
def ReadError.IsFounded (C : Nat → Prop) (R : Row → Prop) (e : ReadError) : Prop :=
  ∀ column width, e = .columnOutOfRange column width →
    C column ∧ ∃ row, R row ∧ row.width = width ∧ width ≤ column

open ReadError (IsFounded)

variable {C : Nat → Prop} {R : Row → Prop}

/-- Only an error about a column has to be founded. -/
theorem ReadError.isFounded_of_ne {e : ReadError}
    (h : ∀ column width, e ≠ .columnOutOfRange column width) : e.IsFounded C R :=
  fun column width heq => absurd heq (h column width)

/-- An error of the rows themselves is founded in them. -/
theorem ReadError.IsOfRows.isFounded {e : ReadError} (h : e.IsOfRows C R) : e.IsFounded C R := by
  cases h with
  | columnOutOfRange hcolumn hrow hwidth =>
    rintro _ _ ⟨⟩
    exact ⟨hcolumn, _, hrow, rfl, hwidth⟩
  | _ => exact isFounded_of_ne (by simp)

/-- The columns of a layout lie within its width. -/
theorem LevelSpec.within_of_layout {spec : LevelSpec} {layout : Layout}
    (h : spec.layout = .ok layout) : layout.Within (· < layout.width) where
  root := (wellFormed_of_layout h).within fun _ => lt_width_of_layout h
  continuation _ := continuation_lt_width h

/-! ## Cursors -/

namespace Cursor

variable {σ : Type} {step : σ → Option Row → σ × Verdict} {s : σ} {c c' : Cursor}

/-- A cursor whose rows are all as a predicate has them. -/
def Carries (R : Row → Prop) (c : Cursor) : Prop := ∀ row, .row row ∈ c.pending → R row

/-- A cursor carries no rows that it did not carry before. -/
theorem Carries.moves (h : c.Carries R) (hmoves : c.Moves c') : c'.Carries R :=
  fun row hrow => h row (hmoves.pending_suffix.subset hrow)

/-- A look fails for the signal alone. -/
theorem isFounded_of_check {e : ReadError} (h : c.check = .error e) : e.IsFounded C R := by
  cases h.symm.trans (isStopped_of_check h).check_eq
  exact ReadError.isFounded_of_ne (by simp)

/-- A pull brings a row that the cursor carries. -/
theorem Carries.fetch (h : c.Carries R) {outcome : Except ReadError (Option Row)}
    (hfetch : c.fetch = (outcome, c')) :
    ComesTo (IsFounded C R) (fun answer => ∀ row ∈ answer, R row) outcome := by
  cases fetches hfetch with
  | refused hcheck => exact .error (isFounded_of_check hcheck)
  | dry | ended => exact .ok (by simp)
  | failed => exact .error (ReadError.isFounded_of_ne (by simp))
  | pulled _ hpending =>
    refine .ok ?_
    rintro _ ⟨⟩
    exact h _ (hpending ▸ List.mem_cons_self)

/-- **What every step of a scan keeps** holds in the end. -/
theorem Scans.keeps {I : σ → Prop} {result : Except ReadError Unit × σ × Cursor}
    (h : Scans step c s result) (hc : c.Carries R) (hs : I s)
    (hstep : ∀ s row s' verdict, I s → (∀ r ∈ row, R r) → step s row = (s', verdict) →
      I s' ∧ ∀ e, verdict = .fail e → e.IsFounded C R) :
    OnlyFails (IsFounded C R) result.1 ∧ I result.2.1 := by
  induction h with
  | fault hfetch => exact ⟨.error (hc.fetch hfetch).of_error, hs⟩
  | fail hfetch hfail =>
    obtain ⟨hs', hfounded⟩ := hstep _ _ _ _ hs (hc.fetch (C := C) hfetch).of_ok hfail
    exact ⟨.error (hfounded _ rfl), hs'⟩
  | done hfetch hdone =>
    exact ⟨.ok trivial, (hstep _ _ _ _ hs (hc.fetch (C := C) hfetch).of_ok hdone).1⟩
  | more hfetch hmore _ ih =>
    exact ih (hc.moves (moves_of_fetch hfetch))
      (hstep _ _ _ _ hs (hc.fetch (C := C) hfetch).of_ok hmore).1

end Cursor

/-! ## Materializers -/

/-- A group of rows as a predicate has them, the row behind it included. -/
structure RowGroup.Of (R : Row → Prop) (g : RowGroup) : Prop where
  run : g.run.Of R
  next : ∀ row ∈ g.next, R row

theorem RowGroup.of_ofRow {row : Row} (hrow : R row) : (RowGroup.ofRow row).Of R :=
  ⟨Run.of_ofRow hrow, by simp [ofRow]⟩

/-- **One step of a group**: the row that is looked at is read in the columns of the root. -/
theorem RowGroup.Of.step {root : LevelInfo} {limit : Nat} {g g' : RowGroup} {row : Option Row}
    {verdict : Cursor.Verdict} (h : g.Of R) (hroot : root.Within C) (hrow : ∀ r ∈ row, R r)
    (hstep : step root limit g row = (g', verdict)) :
    g'.Of R ∧ ∀ e, verdict = .fail e → e.IsFounded C R := by
  cases steps hstep with
  | ended => exact ⟨h, by simp⟩
  | @unread row e herror =>
    have hsame := hroot.onlyFails_sameEntity h.run.first (hrow row rfl)
    rw [herror] at hsame
    refine ⟨h, ?_⟩
    rintro _ ⟨⟩
    exact hsame.of_error.isFounded
  | other => exact ⟨⟨h.run, hrow⟩, by simp⟩
  | full =>
    refine ⟨h, ?_⟩
    rintro _ ⟨⟩
    exact ReadError.isFounded_of_ne (by simp)
  | @joined row => exact ⟨⟨h.run.add (hrow row rfl), h.next⟩, by simp⟩

namespace Materializer

variable {m m' : Materializer} {first : Row}

/-- **A materializer that reads** none but some columns of none but some rows. -/
structure ReadsOnly (C : Nat → Prop) (R : Row → Prop) (m : Materializer) : Prop where
  layout : m.layout.Within C
  cursor : m.cursor.Carries R
  lookahead : ∀ row ∈ m.lookahead, R row

namespace ReadsOnly

/-- A signal reads nothing. -/
theorem signal (h : m.ReadsOnly C R) (raised : Bool) : (m.signal raised).ReadsOnly C R :=
  ⟨h.layout, h.cursor.moves (Cursor.moves_signal _ raised), h.lookahead⟩

theorem of_abort (hlayout : m.layout.Within C) (hcursor : m.cursor.Carries R) :
    m.abort.ReadsOnly C R := ⟨hlayout, hcursor, by simp [abort]⟩

/-- The row that a group begins with is held or pulled, and was carried in either case. -/
theorem firstRow (h : m.ReadsOnly C R) {outcome : Except ReadError (Option Row)}
    (hfirst : m.firstRow = (outcome, m')) :
    ComesTo (IsFounded C R) (fun answer => ∀ row ∈ answer, R row) outcome ∧
      m'.ReadsOnly C R := by
  rcases firstRow_cases hfirst with ⟨row, hlookahead, rfl, rfl⟩ | ⟨-, cursor, hfetch, rfl⟩
  · refine ⟨.ok ?_, h.layout, h.cursor, by simp⟩
    rw [← hlookahead]
    exact h.lookahead
  · exact ⟨h.cursor.fetch hfetch, h.layout, h.cursor.moves (Cursor.moves_of_fetch hfetch),
      h.lookahead⟩

/-- The rows of a group were carried, and are compared in the columns of the root. -/
theorem readGroup (h : m.ReadsOnly C R) (hfirst : R first)
    {outcome : Except ReadError RowGroup} (hgroup : m.readGroup first = (outcome, m')) :
    ComesTo (IsFounded C R) (RowGroup.Of R) outcome ∧ m'.ReadsOnly C R := by
  have hpresent := Row.onlyFails_anyPresent hfirst h.layout.root.info.own
  rw [Materializer.readGroup] at hgroup
  dsimp only at hgroup
  split at hgroup
  · next herror =>
    cases hgroup
    rw [LevelInfo.isPresent] at herror
    rw [herror] at hpresent
    exact ⟨.error hpresent.of_error.isFounded, h.layout, h.cursor, h.lookahead⟩
  · cases hgroup
    exact ⟨.error (ReadError.isFounded_of_ne (by simp)), h.layout, h.cursor, h.lookahead⟩
  · cases hgroup
    have hscans := RowGroup.scans m.layout.root.info m.maxGroupRows m.cursor (.ofRow first)
    obtain ⟨houtcome, hrows⟩ := hscans.keeps (I := RowGroup.Of R) h.cursor
      (RowGroup.of_ofRow hfirst) fun g row _ _ hg hrow => hg.step h.layout.root.info hrow
    exact ⟨houtcome.map fun _ _ => hrows, h.layout, h.cursor.moves hscans.moves, h.lookahead⟩

/-- So is the group that a call gathers. -/
theorem gather (h : m.ReadsOnly C R) {outcome : Except ReadError (Option RowGroup)}
    (hgather : m.gather = (outcome, m')) :
    ComesTo (IsFounded C R) (fun answer => ∀ group ∈ answer, group.Of R) outcome ∧
      m'.ReadsOnly C R := by
  cases gathers hgather with
  | unread hfirst =>
    obtain ⟨houtcome, hm⟩ := h.firstRow hfirst
    exact ⟨.error houtcome.of_error, hm⟩
  | ended hfirst => exact ⟨.ok (by simp), (h.firstRow hfirst).2⟩
  | @broken first _ _ _ hfirst hgroup =>
    obtain ⟨houtcome, hm⟩ := h.firstRow hfirst
    obtain ⟨hbroken, hm'⟩ := hm.readGroup (houtcome.of_ok first rfl) hgroup
    exact ⟨.error hbroken.of_error, hm'⟩
  | @gathered first group _ _ hfirst hgroup =>
    obtain ⟨houtcome, hm⟩ := h.firstRow hfirst
    obtain ⟨hread, hm'⟩ := hm.readGroup (houtcome.of_ok first rfl) hgroup
    refine ⟨.ok ?_, hm'⟩
    rintro _ ⟨⟩
    exact hread.of_ok

/-- **A call reads none but these columns of these rows.** -/
theorem proceed (h : m.ReadsOnly C R) :
    OnlyFails (IsFounded C R) m.proceed.1 ∧ m.proceed.2.ReadsOnly C R := by
  have hproceeds := m.proceeds
  generalize m.proceed = result at hproceeds ⊢
  cases hproceeds with
  | pageFull => exact ⟨.ok trivial, h.layout, h.cursor, h.lookahead⟩
  | unread _ hgather =>
    obtain ⟨houtcome, hm⟩ := h.gather hgather
    exact ⟨.error houtcome.of_error, of_abort hm.layout hm.cursor⟩
  | ended _ hgather =>
    have hm := (h.gather hgather).2
    exact ⟨.ok trivial, hm.layout, hm.cursor, hm.lookahead⟩
  | @unbuilt group _ _ _ _ hgather hdeliver =>
    obtain ⟨houtcome, hm⟩ := h.gather hgather
    have hdelivers := onlyFails_deliver hm.layout (houtcome.of_ok group rfl).run
    rw [hdeliver] at hdelivers
    obtain ⟨_, _, _, _, rfl⟩ := exists_eq_of_deliver hdeliver
    exact ⟨.error hdelivers.of_error.isFounded, of_abort hm.layout hm.cursor⟩
  | @yielded group _ _ _ _ hgather hdeliver =>
    obtain ⟨houtcome, hm⟩ := h.gather hgather
    have hgroup : group.Of R := houtcome.of_ok group rfl
    have hcompletes := completes_of_deliver hdeliver
    refine ⟨.ok trivial, ?_, ?_, ?_⟩
    · rw [hcompletes.layout_eq]
      exact hm.layout
    · rw [hcompletes.cursor_eq]
      exact hm.cursor
    · rw [hcompletes.lookahead_eq]
      exact hgroup.next

/-- **A call, interrupted or not**, reads nothing else and fails for a reason. -/
theorem call (h : m.ReadsOnly C R) (raised : Bool) :
    OnlyFails (IsFounded C R) (m.call raised).1 ∧ (m.call raised).2.ReadsOnly C R := by
  rw [Materializer.call]
  split
  · exact ⟨.ok trivial, h.signal raised⟩
  · split
    · next hcheck =>
      have hm := h.signal raised
      exact ⟨.error (Cursor.isFounded_of_check hcheck), of_abort hm.layout hm.cursor⟩
    · exact (h.signal raised).proceed

/-- So does every run, whose errors are founded in the rows. -/
theorem of_plays {start : Materializer} {answers : List (Except ReadError (Option Entry))}
    (h : consumer.Plays start answers m) (hstart : start.ReadsOnly C R) :
    ∀ answer ∈ answers, OnlyFails (IsFounded C R) answer :=
  (h.keeps hstart (fun _ raised _ hs => hs.call raised) fun _ hs => hs.signal true).1

end ReadsOnly

end Materializer

/-! ## Readers -/

namespace EventReader

variable {r : EventReader}

/-- **One row is placed**: frames keep rows that were carried, and an error is about one of them. -/
theorem step_keeps {layout : Layout} (hroot : layout.root.Within C) (s : Progress)
    (row : Option Row) (s' : Progress) (verdict : Cursor.Verdict) (hs : ∀ f ∈ s.frames, R f.row)
    (hrow : ∀ r ∈ row, R r) (hstep : step layout s row = (s', verdict)) :
    (∀ f ∈ s'.frames, R f.row) ∧ ∀ e, verdict = .fail e → e.IsFounded C R := by
  cases row with
  | none =>
    cases hstep
    exact ⟨List.forall_mem_nil _, by simp⟩
  | some row =>
    have hplace := Layout.comesToOpen_placeRow hroot (hrow row rfl) hs
    rw [step] at hstep
    generalize layout.placeRow row s.frames = outcome at hplace hstep
    cases hplace with
    | error hfounded =>
      cases hstep
      refine ⟨hs, ?_⟩
      rintro _ ⟨⟩
      exact hfounded.isFounded
    | @ok result hframes =>
      cases hstep
      refine ⟨hframes, ?_⟩
      split <;> simp

/-- **A reader that reads** none but some columns of none but some rows. -/
structure ReadsOnly (C : Nat → Prop) (R : Row → Prop) (r : EventReader) : Prop where
  root : r.layout.root.Within C
  cursor : r.cursor.Carries R
  frames : ∀ f ∈ r.frames, R f.row

namespace ReadsOnly

/-- A signal reads nothing. -/
theorem signal (h : r.ReadsOnly C R) (raised : Bool) : (r.signal raised).ReadsOnly C R :=
  ⟨h.root, h.cursor.moves (Cursor.moves_signal _ raised), h.frames⟩

theorem fail (h : r.ReadsOnly C R) : r.fail.ReadsOnly C R := ⟨h.root, h.cursor, h.frames⟩

theorem pop (h : r.ReadsOnly C R) :
    OnlyFails (IsFounded C R) r.pop.1 ∧ r.pop.2.ReadsOnly C R := by
  rw [EventReader.pop]
  split <;> exact ⟨.ok trivial, h.root, h.cursor, h.frames⟩

/-- **A read reads none but these columns of these rows.** -/
theorem proceed (h : r.ReadsOnly C R) :
    OnlyFails (IsFounded C R) r.proceed.1 ∧ r.proceed.2.ReadsOnly C R := by
  have hproceeds := r.proceeds
  have hscans := scans r.layout r.cursor ⟨r.frames, r.queue, r.drained, r.placed⟩
  have hmoves := hscans.moves
  obtain ⟨houtcome, hframes⟩ := hscans.keeps (I := fun s => ∀ f ∈ s.frames, R f.row) h.cursor
    h.frames (step_keeps h.root)
  generalize r.proceed = result at hproceeds ⊢
  cases hproceeds with
  | popped => exact h.pop
  | @failed e s cursor _ _ hscan =>
    rw [hscan] at houtcome hframes hmoves
    have hr : (r.afterScan s cursor).ReadsOnly C R := ⟨h.root, h.cursor.moves hmoves, hframes⟩
    exact ⟨.error houtcome.of_error, hr.fail⟩
  | @scanned s cursor _ _ hscan =>
    rw [hscan] at hframes hmoves
    have hr : (r.afterScan s cursor).ReadsOnly C R := ⟨h.root, h.cursor.moves hmoves, hframes⟩
    exact hr.pop

/-- The same with the first look at the signal. -/
theorem readWith (h : r.ReadsOnly C R) (raised : Bool) :
    OnlyFails (IsFounded C R) (r.readWith raised).1 ∧ (r.readWith raised).2.ReadsOnly C R := by
  rw [EventReader.readWith]
  split
  · exact ⟨.error (ReadError.isFounded_of_ne (by simp)), h.signal raised⟩
  · split
    · next hcheck => exact ⟨.error (Cursor.isFounded_of_check hcheck), (h.signal raised).fail⟩
    · exact (h.signal raised).proceed

/-- **A call, interrupted or not**, reads nothing else and fails for a reason. -/
theorem call (h : r.ReadsOnly C R) (how : Asking) (raised : Bool) :
    (∀ outcome ∈ (r.call how raised).1, OnlyFails (IsFounded C R) outcome) ∧
      (r.call how raised).2.ReadsOnly C R := by
  obtain ⟨houtcome, hr⟩ := h.readWith raised
  have hread : ∀ outcome ∈ some (r.readWith raised).1, OnlyFails (IsFounded C R) outcome := by
    rintro _ ⟨⟩
    exact houtcome
  cases how with
  | read => exact ⟨hread, hr⟩
  | next =>
    rw [EventReader.call]
    split
    · exact ⟨by simp, h.signal raised⟩
    · exact ⟨hread, hr⟩

/-- So does every run of the reader. -/
theorem of_plays {start : EventReader} {answers : List (Option (Except ReadError Event))}
    (h : consumer.Plays start answers r) (hstart : start.ReadsOnly C R) :
    ∀ answer ∈ answers, ∀ outcome ∈ answer, OnlyFails (IsFounded C R) outcome :=
  (h.keeps hstart (fun how raised _ hs => hs.call how raised) fun _ hs => hs.signal true).1

end ReadsOnly

end EventReader

/-! ## Both consumers -/

/-- **Consumptions fail for a reason**: a column that is out of range is one of the layout, and a
row that the source delivers does not have it. -/
theorem faults_founded {spec : LevelSpec} {layout : Layout} (hlayout : spec.layout = .ok layout)
    (source : Cursor) :
    let Founded := IsFounded (· < layout.width) fun row => .row row ∈ source.pending
    (∀ limit pageSize answers m,
      Materializer.consumer.Plays { Materializer.ofCursor layout source limit with pageSize }
        answers m →
      ∀ answer ∈ answers, OnlyFails Founded answer) ∧
    ∀ answers r, EventReader.consumer.Plays (EventReader.ofCursor layout source) answers r →
      ∀ answer ∈ answers, ∀ outcome ∈ answer, OnlyFails Founded outcome := by
  have hwithin := LevelSpec.within_of_layout hlayout
  have hcarries : source.Carries fun row => .row row ∈ source.pending := fun _ => id
  refine ⟨fun limit pageSize answers m h => ?_, fun answers r h => ?_⟩
  · exact Materializer.ReadsOnly.of_plays h ⟨hwithin, hcarries, by simp [Materializer.ofCursor]⟩
  · exact EventReader.ReadsOnly.of_plays h ⟨hwithin.root, hcarries, List.forall_mem_nil _⟩

/-- **Rows as wide as the layout are wide enough.**  Whatever the limit and the page size, however
often and whenever the signal is raised: no call of a materializer and none of a reader fails for a
column that is out of range, if no row of the source is narrower than the layout. -/
theorem width_suffices (spec : LevelSpec) (layout : Layout) (hlayout : spec.layout = .ok layout)
    (source : Cursor) (hwide : ∀ row, .row row ∈ source.pending → layout.width ≤ row.width)
    (column width : Nat) :
    (∀ limit pageSize answers m,
      Materializer.consumer.Plays { Materializer.ofCursor layout source limit with pageSize }
        answers m →
      .error (.columnOutOfRange column width) ∉ answers) ∧
    ∀ answers r, EventReader.consumer.Plays (EventReader.ofCursor layout source) answers r →
      some (.error (.columnOutOfRange column width)) ∉ answers := by
  have hunfounded : ¬ IsFounded (· < layout.width) (fun row => .row row ∈ source.pending)
      (.columnOutOfRange column width) := fun hfounded => by
    obtain ⟨hcolumn, row, hrow, rfl, hwidth⟩ := hfounded column width rfl
    have hle := hwide row hrow
    omega
  obtain ⟨hmaterializer, hreader⟩ := faults_founded hlayout source
  refine ⟨fun limit pageSize answers m h hanswer => hunfounded ?_,
    fun answers r h hanswer => hunfounded ?_⟩
  · exact (hmaterializer limit pageSize answers m h _ hanswer).of_error
  · exact (hreader answers r h _ hanswer _ rfl).of_error

/-- A page of one order reads its continuation and a row of the next order; a row without an item
column would not do. -/
theorem width_suffices_orders :
    let m := (Materializer.ofCursor .orders (.ofDeliveries Delivery.orders) 3).withPageSize 1
    let r := EventReader.ofCursor .orders (.ofDeliveries Delivery.orders)
    (∀ column width, m.next.1 ≠ .error (.columnOutOfRange column width)) ∧
      (∀ column width, r.read.1 ≠ .error (.columnOutOfRange column width)) ∧
      (Materializer.ofCursor .orders (.ofDeliveries [.row ⟨[.int 1, .int 7]⟩]) 3).next.1 =
        .error (.columnOutOfRange 2 2) := by
  intro m r
  have hnarrow := width_suffices .orders .orders rfl (.ofDeliveries Delivery.orders)
    Delivery.width_le_of_mem_orders
  have hmplays := Materializer.consumer.plays_call m () false
  have hrplays := EventReader.consumer.plays_call r .read false
  refine ⟨fun column width heq => ?_, fun column width heq => ?_, rfl⟩
  · refine (hnarrow column width).1 3 (some 1) _ _ hmplays ?_
    exact List.mem_singleton.2 (heq.symm.trans (congrArg Prod.fst m.call_false.symm))
  · refine (hnarrow column width).2 _ _ hrplays ?_
    exact List.mem_singleton.2
      ((congrArg some heq.symm).trans (congrArg Prod.fst r.call_false.1.symm))

end QueryPlans
