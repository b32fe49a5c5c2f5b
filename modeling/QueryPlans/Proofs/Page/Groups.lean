import Mathlib.Data.List.Flatten
import Mathlib.Data.List.TakeWhile
import QueryPlans.Proofs.Materializer
import QueryPlans.Proofs.Ownership.Runs
import QueryPlans.Proofs.Page.Calls

/-!
# Proofs/Page/Groups — the rows that calls have used

A source may fail at any delivery; what matters are the rows in front (`readable`).  Split into
blocks of neighbours with one root entity, they are what calls use up, one block for each entry
(`HasUsed`).  A call that gathers a group pulls its block and one row beyond it at most, also when
it fails on the way (`Progress.fetched_le`).
-/

namespace QueryPlans

/-! ## Rows in front of a failure -/

/-- The rows that are delivered before anything fails. -/
def readable : List Delivery → List Row
  | .row row :: rest => row :: readable rest
  | _ => []

theorem readable_append (rows : List Row) (deliveries : List Delivery) :
    readable (rows.map .row ++ deliveries) = rows ++ readable deliveries := by
  induction rows with
  | nil => rfl
  | cons row rest ih => rw [List.map_cons, List.cons_append, readable, ih, List.cons_append]

theorem readable_map_row (rows : List Row) : readable (rows.map .row) = rows := by
  simpa [readable] using readable_append rows []

/-- Readable rows were delivered. -/
theorem mem_of_mem_readable {row : Row} {deliveries : List Delivery}
    (h : row ∈ readable deliveries) : .row row ∈ deliveries := by
  induction deliveries with
  | nil => cases h
  | cons delivery rest ih =>
    cases delivery with
    | failure reason => cases h
    | row first =>
      rw [readable, List.mem_cons] at h
      rcases h with rfl | h
      · exact List.mem_cons_self
      · exact List.mem_cons_of_mem _ (ih h)

namespace Cursor

/-- A cursor that has come to its end has nothing left. -/
def EndsLast (c : Cursor) : Prop := c.exhausted = true → c.pending = []

/-- **A cursor that has pulled rows** and nothing else. -/
structure HasPulled (c : Cursor) (rows : List Row) (c' : Cursor) : Prop where
  pending_eq : c.pending = rows.map .row ++ c'.pending
  fetched_eq : c'.fetched = c.fetched + rows.length
  endsLast : c.EndsLast → c'.EndsLast

variable {σ : Type} {step : σ → Option Row → σ × Verdict} {s s' : σ} {c c' c'' : Cursor}
  {rows rows' : List Row} {row : Option Row} {e : ReadError}

theorem HasPulled.refl (c : Cursor) : HasPulled c [] c := ⟨rfl, rfl, id⟩

/-- What was pulled is the front of what could be read. -/
theorem HasPulled.readable_eq (h : HasPulled c rows c') :
    readable c.pending = rows ++ readable c'.pending := by
  rw [h.pending_eq, readable_append]

/-- Pulls follow one another. -/
theorem HasPulled.trans (h : HasPulled c rows c') (h' : HasPulled c' rows' c'') :
    HasPulled c (rows ++ rows') c'' where
  pending_eq := by rw [h.pending_eq, h'.pending_eq, List.map_append, List.append_assoc]
  fetched_eq := by rw [h'.fetched_eq, h.fetched_eq, List.length_append, Nat.add_assoc]
  endsLast hends := h'.endsLast (h.endsLast hends)

/-- What a pull comes to. -/
inductive Fetches (c : Cursor) : Except ReadError (Option Row) × Cursor → Prop
  | refused {e : ReadError} (h : c.check = .error e) : Fetches c (.error e, c)
  | dry (h : c.exhausted = true) : Fetches c (.ok none, c)
  | ended (h : c.pending = []) : Fetches c (.ok none, { c.pulled with exhausted := true })
  | failed {reason : String} {rest : List Delivery} (h : c.pending = .failure reason :: rest) :
    Fetches c (.error (.sourceFailed reason), { c.pulled with pending := rest })
  | pulled {row : Row} {rest : List Delivery} (hexhausted : c.exhausted = false)
    (h : c.pending = .row row :: rest) :
    Fetches c (.ok (some row), { c.pulled with pending := rest, fetched := c.fetched + 1 })

/-- A pull fails, finds the end, or brings a row. -/
theorem fetches {result : Except ReadError (Option Row) × Cursor} (h : c.fetch = result) :
    c.Fetches result := by
  rw [← h, fetch]
  split
  · next h => exact .refused h
  · split
    · next h => exact .dry h
    · next hexhausted =>
      split
      · next h => exact .ended h
      · next h => exact .failed h
      · next h => exact .pulled (Bool.eq_false_iff.2 hexhausted) h

/-- A pull that succeeds. -/
theorem hasPulled_of_fetch (h : c.fetch = (.ok row, c')) : HasPulled c row.toList c' := by
  cases fetches h with
  | dry _ => exact .refl c
  | ended hpending => exact ⟨rfl, rfl, fun _ _ => hpending⟩
  | pulled hexhausted hpending =>
    have hends (hend : c.exhausted = true) := Bool.false_ne_true (hexhausted.symm.trans hend)
    exact ⟨hpending, rfl, fun _ hend => (hends hend).elim⟩

theorem hasPulled_of_pulls (h : c.Pulls rows c') : c.HasPulled rows c' := by
  induction h with
  | nil => exact .refl _
  | cons hfetch _ ih => exact (hasPulled_of_fetch hfetch).trans ih

/-- A cursor that has no row to give has come to its end. -/
theorem EndsLast.pending_of_fetch (hends : c.EndsLast) (h : c.fetch = (.ok none, c')) :
    c'.pending = [] := by
  cases fetches h with
  | dry hexhausted => exact hends hexhausted
  | ended hpending => exact hpending

/-- A pull that fails gives no row. -/
theorem fetched_of_fetch_error (h : c.fetch = (.error e, c')) : c'.fetched = c.fetched := by
  cases fetches h with
  | refused _ | failed _ => rfl

/-- **A scan that succeeds** ends with the rows or with the one that it pulls last. -/
theorem Scans.of_ok (h : Scans step c s (.ok (), s', c')) :
    ∃ more s'' last, Continues step s more s'' ∧ step s'' last = (s', .done) ∧
      HasPulled c (more ++ last.toList) c' ∧
      (last = none → c.EndsLast → c'.pending = []) := by
  generalize hresult : (Except.ok (), s', c') = result at h
  induction h with
  | fault _ => cases hresult
  | fail _ _ => cases hresult
  | @done _ _ s _ last hfetch hstep =>
    cases hresult
    refine ⟨[], s, last, .nil, hstep, hasPulled_of_fetch hfetch, ?_⟩
    rintro rfl hends
    exact hends.pending_of_fetch hfetch
  | @more _ _ _ _ row _ hfetch hstep _ ih =>
    obtain ⟨more, s'', last, hcontinues, hdone, hpulled, hnone⟩ := ih hresult
    have hfirst := hasPulled_of_fetch hfetch
    exact ⟨row :: more, s'', last, .cons hstep hcontinues, hdone, hfirst.trans hpulled,
      fun hlast hends => hnone hlast (hfirst.endsLast hends)⟩

/-- **A scan that fails** does so at a pull, or at the row that it pulls last. -/
theorem Scans.of_error (h : Scans step c s (.error e, s', c')) :
    ∃ more s'' c'', Continues step s more s'' ∧ c.Pulls more c'' ∧
      (c''.fetch = (.error e, c') ∨
        ∃ last, c''.fetch = (.ok last, c') ∧ step s'' last = (s', .fail e)) := by
  generalize hresult : (Except.error e, s', c') = result at h
  induction h with
  | fault hfetch =>
    cases hresult
    exact ⟨[], _, _, .nil, .nil, .inl hfetch⟩
  | fail hfetch hstep =>
    cases hresult
    exact ⟨[], _, _, .nil, .nil, .inr ⟨_, hfetch, hstep⟩⟩
  | done _ _ => cases hresult
  | @more _ _ _ _ row _ hfetch hstep _ ih =>
    obtain ⟨more, s'', c'', hcontinues, hpulls, hlast⟩ := ih hresult
    exact ⟨row :: more, s'', c'', .cons hstep hcontinues, .cons hfetch hpulls, hlast⟩

end Cursor

/-! ## Blocks of the root entity -/

/-- The rows that belong to one root entity after the other. -/
def Layout.groups (layout : Layout) (rows : List Row) : List (List Row) :=
  layout.root.info.blocks Row.toCells rows

namespace Layout

variable {layout : Layout} {rows more tail : List Row} {first row : Row}

/-- All rows are in the groups, in order. -/
theorem flatten_groups (layout : Layout) (rows : List Row) : (layout.groups rows).flatten = rows :=
  List.flatten_splitBy _ rows

/-- How many rows the first groups have. -/
def extent (layout : Layout) (rows : List Row) (k : Nat) : Nat :=
  ((layout.groups rows).take k).flatten.length

/-- More groups have more rows. -/
theorem extent_mono (layout : Layout) (rows : List Row) {j k : Nat} (h : j ≤ k) :
    layout.extent rows j ≤ layout.extent rows k :=
  (List.take_sublist_take_left h).flatten.length_le

/-- Rows with the entity of the first are a group if another follows. -/
theorem groups_cons_append
    (hsame : ∀ row ∈ more, layout.root.info.isSame first.toCells row.toCells = true)
    (hother : ∀ row ∈ tail.head?, layout.root.info.isSame first.toCells row.toCells = false) :
    layout.groups (first :: more ++ tail) = (first :: more) :: layout.groups tail := by
  have hequiv := layout.root.info.isEquivalence_isSame
  have hfirst : ∀ row ∈ first :: more,
      layout.root.info.isSame first.toCells row.toCells = true :=
    List.forall_mem_cons.2 ⟨hequiv.self _, hsame⟩
  refine LevelInfo.blocks_append (List.cons_ne_nil _ _)
    (fun a ha b hb => hequiv.trans (hequiv.symm (hfirst a ha)) (hfirst b hb)) fun a ha b hb => ?_
  rw [← hequiv.congr (hfirst a ha)]
  exact hother b hb

/-- **The first group** goes as far as rows have the entity of the first. -/
theorem exists_first_group
    (hsame : ∀ row ∈ more, layout.root.info.isSame first.toCells row.toCells = true)
    (rows : List Row) :
    ∃ others tail, rows = others ++ tail ∧
      (∀ row ∈ others, layout.root.info.isSame first.toCells row.toCells = true) ∧
      (∀ row ∈ tail.head?, layout.root.info.isSame first.toCells row.toCells = false) ∧
      layout.groups (first :: more ++ rows) = (first :: more ++ others) :: layout.groups tail := by
  let p (row : Row) : Bool := layout.root.info.isSame first.toCells row.toCells
  have hothers : ∀ row ∈ rows.takeWhile p, p row = true :=
    fun row hrow => List.mem_takeWhile_imp (p := p) hrow
  have htail : ∀ row ∈ (rows.dropWhile p).head?, p row = false := fun row hrow => by
    simpa [Option.mem_def.1 hrow] using List.head?_dropWhile_not p rows
  have hgroups : layout.groups (first :: (more ++ rows.takeWhile p) ++ rows.dropWhile p) =
      (first :: (more ++ rows.takeWhile p)) :: layout.groups (rows.dropWhile p) :=
    groups_cons_append (List.forall_mem_append.2 ⟨hsame, hothers⟩) htail
  rw [List.cons_append, List.append_assoc, List.takeWhile_append_dropWhile] at hgroups
  exact ⟨_, _, List.takeWhile_append_dropWhile.symm, hothers, htail, hgroups⟩

end Layout

/-! ## What a call reads -/

namespace Materializer

/-- The rows that the next groups are made of. -/
def coming (m : Materializer) : List Row := m.lookahead.toList ++ readable m.cursor.pending

/-- **A materializer that has used whole groups** of the rows that are delivered, and holds at most
the row behind them. -/
structure HasUsed (m : Materializer) (layout : Layout) (rows : List Row)
    (groups : List (List Row)) : Prop where
  layout_eq : m.layout = layout
  groups_eq : layout.groups rows = groups ++ layout.groups m.coming
  fetched_eq : m.cursor.fetched = groups.flatten.length + m.lookahead.toList.length
  endsLast : m.cursor.EndsLast

variable {layout : Layout} {limit k : Nat} {rows : List Row} {groups : List (List Row)}
  {m m' : Materializer} {first : Row} {group : RowGroup} {e : ReadError}

/-- Nothing of a new source has been used. -/
theorem hasUsed_ofDeliveries (layout : Layout) (deliveries : List Delivery) (limit : Nat) :
    (ofCursor layout (.ofDeliveries deliveries) limit).HasUsed layout (readable deliveries) [] :=
  ⟨rfl, rfl, rfl, nofun⟩

/-- The groups that were used are the first ones. -/
theorem HasUsed.extent_eq (h : m.HasUsed layout rows groups) :
    layout.extent rows groups.length = groups.flatten.length := by
  rw [Layout.extent, h.groups_eq, List.take_left]

/-- **One row is read ahead at most.** -/
theorem HasUsed.fetched_le (h : m.HasUsed layout rows groups) :
    m.cursor.fetched ≤ layout.extent rows groups.length + 1 := by
  rw [h.extent_eq, h.fetched_eq]
  exact Nat.add_le_add_left (by cases m.lookahead <;> simp) _

/-- The first row is held, or pulled. -/
theorem firstRow_cases {outcome : Except ReadError (Option Row)} (h : m.firstRow = (outcome, m')) :
    (∃ row, m.lookahead = some row ∧ outcome = .ok (some row) ∧
      m' = { m with lookahead := none }) ∨
    m.lookahead = none ∧ ∃ cursor, m.cursor.fetch = (outcome, cursor) ∧ m' = { m with cursor } := by
  rw [firstRow] at h
  split at h
  · next row hlookahead =>
    cases h
    exact .inl ⟨row, hlookahead, rfl, rfl⟩
  · next hlookahead =>
    cases h
    exact .inr ⟨hlookahead, _, rfl, rfl⟩

/-- A call begins with the first of the coming rows. -/
theorem HasUsed.of_firstRow (h : m.HasUsed layout rows groups)
    (hfirst : m.firstRow = (.ok (some first), m')) :
    m.coming = first :: readable m'.cursor.pending ∧
      m'.cursor.fetched = groups.flatten.length + 1 ∧ m'.cursor.EndsLast ∧ m'.layout = layout := by
  have hfetched := h.fetched_eq
  rcases firstRow_cases hfirst with ⟨row, hlookahead, hrow, rfl⟩ |
      ⟨hlookahead, cursor, hfetch, rfl⟩
  all_goals rw [hlookahead] at hfetched
  · cases hrow
    exact ⟨by rw [coming, hlookahead]; rfl, hfetched, h.endsLast, h.layout_eq⟩
  · have hpulled := Cursor.hasPulled_of_fetch hfetch
    refine ⟨?_, ?_, hpulled.endsLast h.endsLast, h.layout_eq⟩
    · rw [coming, hlookahead, hpulled.readable_eq]
      rfl
    · rw [hpulled.fetched_eq, hfetched]
      rfl

/-- Where there is no first row, no row is read. -/
theorem fetched_of_firstRow {outcome : Except ReadError (Option Row)}
    (hfirst : m.firstRow = (outcome, m')) (hnone : ∀ row, outcome ≠ .ok (some row)) :
    m'.cursor.fetched = m.cursor.fetched := by
  rcases firstRow_cases hfirst with ⟨row, -, rfl, -⟩ | ⟨-, cursor, hfetch, rfl⟩
  · exact absurd rfl (hnone row)
  · rcases outcome with e | _ | row
    · exact Cursor.fetched_of_fetch_error hfetch
    · exact (Cursor.hasPulled_of_fetch hfetch).fetched_eq
    · exact absurd rfl (hnone row)

/-- Reading a group is a scan, unless the first row is refused. -/
theorem readGroup_cases (m : Materializer) (first : Row) :
    (∃ e highWater, m.readGroup first = (.error e, { m with highWater })) ∨
      ∃ outcome group cursor highWater,
        Cursor.Scans (RowGroup.step m.layout.root.info m.maxGroupRows) m.cursor (.ofRow first)
          (outcome, group, cursor) ∧
        m.readGroup first = (outcome.map fun _ => group, { m with cursor, highWater }) := by
  rw [readGroup]
  dsimp only
  split
  · exact .inl ⟨_, _, rfl⟩
  · exact .inl ⟨_, _, rfl⟩
  · exact .inr ⟨_, _, _, _, RowGroup.scans .., rfl⟩

/-- The rows that a group has pulled show the entity of the first. -/
theorem isSame_of_continues {root : LevelInfo}
    (h : Cursor.Continues (RowGroup.step root limit) (.ofRow first) rows group) :
    ∀ row ∈ rows, root.isSame first.toCells row.toCells = true :=
  fun row hrow => LevelInfo.sameEntity_of_ok ((RowGroup.extends_of_continues h).same row hrow)

/-- **A group that was read** behind its first row: it has pulled its rows and the one that ends
it. -/
structure ReadsGroup (m : Materializer) (first : Row) (more : List Row) (group : RowGroup)
    (m' : Materializer) : Prop where
  rows_eq : group.run.rows = first :: more
  pulled : m.cursor.HasPulled (more ++ group.next.toList) m'.cursor
  same : ∀ row ∈ more, m.layout.root.info.isSame first.toCells row.toCells = true
  other : ∀ row ∈ group.next, m.layout.root.info.isSame first.toCells row.toCells = false
  ended : group.next = none → m.cursor.EndsLast → m'.cursor.pending = []

/-- A group that was read is its first row and the rows pulled behind it. -/
theorem of_readGroup_ok (hgroup : m.readGroup first = (.ok group, m')) :
    ∃ more, m.ReadsGroup first more group m' := by
  rcases m.readGroup_cases first with ⟨e, highWater, heq⟩ |
      ⟨_ | ⟨⟩, group', cursor, highWater, hscans, heq⟩
  · cases hgroup.symm.trans heq
  · cases hgroup.symm.trans heq
  · cases hgroup.symm.trans heq
    obtain ⟨more, g, last, hmore, hdone, hpulled, hnone⟩ := hscans.of_ok
    have hextends := RowGroup.extends_of_continues hmore
    obtain ⟨hrun, rfl, hother⟩ := RowGroup.step_done hextends.next_eq hdone
    rw [hextends.first_eq] at hother
    refine ⟨more, ?_, hpulled, isSame_of_continues hmore,
      fun row hrow => LevelInfo.sameEntity_of_ok (hother row hrow), hnone⟩
    rw [hrun, hextends.rows_eq]
    rfl

/-- A group that could not be read to its end has pulled one row too many at most. -/
theorem of_readGroup_error (hgroup : m.readGroup first = (.error e, m')) :
    ∃ more tail, readable m.cursor.pending = more ++ tail ∧
      (∀ row ∈ more, m.layout.root.info.isSame first.toCells row.toCells = true) ∧
      m'.cursor.fetched ≤ m.cursor.fetched + more.length + 1 := by
  rcases m.readGroup_cases first with ⟨e, highWater, heq⟩ |
      ⟨_ | ⟨⟩, group', cursor, highWater, hscans, heq⟩
  · cases hgroup.symm.trans heq
    exact ⟨[], _, rfl, by simp, Nat.le_succ _⟩
  · cases hgroup.symm.trans heq
    obtain ⟨more, g, c, hmore, hpulls, hlast⟩ := hscans.of_error
    have hpulled := Cursor.hasPulled_of_pulls hpulls
    refine ⟨more, _, hpulled.readable_eq, isSame_of_continues hmore, ?_⟩
    rw [← hpulled.fetched_eq]
    rcases hlast with hfetch | ⟨last, hfetch, -⟩
    · exact (Cursor.fetched_of_fetch_error hfetch).trans_le (Nat.le_succ _)
    · rw [(Cursor.hasPulled_of_fetch hfetch).fetched_eq]
      exact Nat.add_le_add_left (by cases last <;> simp) _
  · cases hgroup.symm.trans heq

/-! ## What a call has used -/

/-- **A call that gathers a group** uses the next one of the rows. -/
theorem HasUsed.of_gather_some (h : m.HasUsed layout rows groups)
    (hgather : m.gather = (.ok (some group), m')) :
    HasUsed { m' with lookahead := group.next } layout rows (groups ++ [group.run.rows]) := by
  have hlayout' : m'.layout = layout := (readsOn_of_gather hgather).layout.trans h.layout_eq
  cases gathers hgather with
  | @gathered first _ m₁ _ hfirst hgroup =>
    obtain ⟨hcoming, hfetched, hends, rfl⟩ := h.of_firstRow hfirst
    obtain ⟨more, hreads⟩ := of_readGroup_ok hgroup
    refine ⟨hlayout', ?_, ?_, hreads.pulled.endsLast hends⟩
    · have hother : ∀ row ∈ (group.next.toList ++ readable m'.cursor.pending).head?,
          m₁.layout.root.info.isSame first.toCells row.toCells = false := fun row hrow => by
        cases hnext : group.next with
        | none =>
          rw [hnext, hreads.ended hnext hends] at hrow
          cases hrow
        | some next =>
          rw [hnext] at hrow
          exact hreads.other row (hnext.trans hrow)
      rw [h.groups_eq, hcoming, hreads.pulled.readable_eq, List.append_assoc, ← List.cons_append,
        Layout.groups_cons_append hreads.same hother, ← hreads.rows_eq, List.append_assoc]
      rfl
    · change m'.cursor.fetched = _ + group.next.toList.length
      simp only [hreads.pulled.fetched_eq, hfetched, hreads.rows_eq, List.flatten_append,
        List.flatten_singleton, List.length_append, List.length_cons]
      omega

/-- A call that reads nothing or not all of a group has not gone beyond the row behind it. -/
theorem HasUsed.of_gather_error (h : m.HasUsed layout rows groups)
    (hgather : m.gather = (.error e, m')) :
    m'.cursor.fetched ≤ layout.extent rows (groups.length + 1) + 1 := by
  cases gathers hgather with
  | unread hfirst =>
    rw [fetched_of_firstRow hfirst nofun]
    exact h.fetched_le.trans (Nat.succ_le_succ (layout.extent_mono rows (Nat.le_succ _)))
  | @broken first _ _ _ hfirst hgroup =>
    obtain ⟨hcoming, hfetched, -, rfl⟩ := h.of_firstRow hfirst
    obtain ⟨more, tail, hpending, hsame, hfetched'⟩ := of_readGroup_error hgroup
    obtain ⟨others, rest, -, -, -, hgroups⟩ := Layout.exists_first_group hsame tail
    rw [Layout.extent, h.groups_eq, hcoming, hpending, ← List.cons_append, hgroups,
      List.append_cons, List.take_left' (by simp)]
    simp only [List.flatten_append, List.flatten_singleton, List.length_append, List.length_cons]
    omega

/-- A call that comes to the end reads no row. -/
theorem fetched_of_gather_none (hgather : m.gather = (.ok none, m')) :
    m'.cursor.fetched = m.cursor.fetched := by
  cases gathers hgather with
  | ended hfirst => exact fetched_of_firstRow hfirst nofun

/-! ## A number of calls -/

variable {entry : Entry}

/-- Without a page size an entry is delivered as it was built. -/
theorem of_deliver_ok (hsize : m.pageSize = none) (h : m.deliver group = (.ok entry, m')) :
    m.layout.root.build group.run = .ok entry ∧
      m' = { m with produced := m.produced + 1, lookahead := group.next } := by
  cases hbuild : m.layout.root.build group.run with
  | error e => cases (deliver_of_error hbuild).symm.trans h
  | ok built =>
    cases (deliver_of_room (by simp [hsize]) hbuild).symm.trans h
    exact ⟨rfl, rfl⟩

/-- Without pages a delivery fails only in building its entry. -/
theorem of_deliver_error (hsize : m.pageSize = none) (h : m.deliver group = (.error e, m')) :
    m.layout.root.build group.run = .error e ∧ m' = m := by
  cases hbuild : m.layout.root.build group.run with
  | error e =>
    cases (deliver_of_error hbuild).symm.trans h
    exact ⟨rfl, rfl⟩
  | ok built => cases (deliver_of_room (by simp [hsize]) hbuild).symm.trans h

/-- **A materializer without page size after a number of calls**, each of which has used a group
unless there was nothing more to come. -/
structure Progress (layout : Layout) (rows : List Row) (k : Nat) (m : Materializer) : Prop where
  pageSize : m.pageSize = none
  continuation : m.continuation = none
  fetched_le : m.cursor.fetched ≤ layout.extent rows k + 1
  reading : m.finished = false →
    m.produced = k ∧ ∃ groups, groups.length = k ∧ m.HasUsed layout rows groups

namespace Progress

theorem ofDeliveries (layout : Layout) (deliveries : List Delivery) (limit : Nat) :
    Progress layout (readable deliveries) 0
      (ofCursor layout (.ofDeliveries deliveries) limit) where
  pageSize := rfl
  continuation := rfl
  fetched_le := Nat.zero_le _
  reading _ := ⟨rfl, [], rfl, hasUsed_ofDeliveries layout deliveries limit⟩

/-- A call uses one more group. -/
theorem next (h : Progress layout rows k m) : Progress layout rows (k + 1) m.next.2 := by
  have hfetched : m.cursor.fetched ≤ layout.extent rows (k + 1) + 1 :=
    h.fetched_le.trans (Nat.succ_le_succ (layout.extent_mono rows (Nat.le_succ k)))
  have hcalls := m.calls
  generalize m.next = result at hcalls
  cases hcalls with
  | idle hfinished => exact ⟨h.pageSize, h.continuation, hfetched, by simp [hfinished]⟩
  | cancelled | pageFull => exact ⟨h.pageSize, h.continuation, hfetched, nofun⟩
  | unread due hgather =>
    obtain ⟨-, groups, rfl, hused⟩ := h.reading due.finished
    have hreads := readsOn_of_gather hgather
    have hread := hused.of_gather_error hgather
    exact ⟨hreads.pageSize.trans h.pageSize, hreads.continuation.trans h.continuation, hread,
      nofun⟩
  | ended due hgather =>
    have hreads := readsOn_of_gather hgather
    have hread := (fetched_of_gather_none hgather).trans_le hfetched
    exact ⟨hreads.pageSize.trans h.pageSize, hreads.continuation.trans h.continuation, hread,
      nofun⟩
  | unbuilt due hgather hdeliver =>
    obtain ⟨-, groups, rfl, hused⟩ := h.reading due.finished
    have hreads := readsOn_of_gather hgather
    have hread := (hused.of_gather_some hgather).fetched_le
    rw [List.length_append] at hread
    obtain ⟨-, rfl⟩ := of_deliver_error (hreads.pageSize.trans h.pageSize) hdeliver
    exact ⟨hreads.pageSize.trans h.pageSize, hreads.continuation.trans h.continuation, hread,
      nofun⟩
  | yielded due hgather hdeliver =>
    obtain ⟨hproduced, groups, rfl, hused⟩ := h.reading due.finished
    have hreads := readsOn_of_gather hgather
    have hused' := hused.of_gather_some hgather
    have hread := hused'.fetched_le
    rw [List.length_append] at hread
    obtain ⟨-, rfl⟩ := of_deliver_ok (hreads.pageSize.trans h.pageSize) hdeliver
    exact ⟨hreads.pageSize.trans h.pageSize, hreads.continuation.trans h.continuation, hread,
      fun _ => ⟨congrArg (· + 1) (hreads.produced.trans hproduced), _, List.length_append,
        ⟨hused'.layout_eq, hused'.groups_eq, hused'.fetched_eq, hused'.endsLast⟩⟩⟩

/-- **After each call** the groups answered for so far have been used. -/
theorem after (h : Progress layout rows 0 m) (k : Nat) : Progress layout rows k (m.after k) := by
  induction k with
  | zero => exact h
  | succ k ih => exact ih.next

/-- **The group of a call** is the one that has its number. -/
theorem getElem?_groups (h : Progress layout rows k m) (due : m.IsDue)
    (hgather : m.gather = (.ok (some group), m')) :
    (layout.groups rows)[k]? = some group.run.rows := by
  obtain ⟨-, groups, rfl, hused⟩ := h.reading due.finished
  rw [(hused.of_gather_some hgather).groups_eq, List.append_assoc, List.getElem?_append_right
    (Nat.le_refl _), Nat.sub_self]
  rfl

end Progress

end Materializer

end QueryPlans
