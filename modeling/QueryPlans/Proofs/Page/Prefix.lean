import QueryPlans.Proofs.Page.Groups
import QueryPlans.Proofs.Page.Writes

/-!
# Proofs/Page/Prefix — a page is the beginning of the result

A materializer with a page size does what it does without one, call by call, until an entry fills
the page (`Calls.withPageSize`).  That entry alone is written to, with the values of the
continuation that is issued with it (`deliver_of_full`); every other outcome of the call that could
fill the page leaves the materializer finished anyway.  So the two never differ in what they have
read, and a page reads the rows of its groups and one more at most.
-/

namespace QueryPlans

/-! ## The values of a continuation -/

/-- The last value in a column that is not null, or null. -/
def lastValue (column : Nat) (rows : List Row) : Scalar :=
  ((rows.map fun row => row.toCells column).reverse.find? fun v => !v.isNull).getD .null

/-- The continuation that a group of rows gives. -/
def Layout.continuationAfter (layout : Layout) (rows : List Row) : Continuation :=
  ⟨layout.continuation.map fun column => (column.property, lastValue column.column rows)⟩

/-- The values of a continuation, with the paths that show them. -/
def Layout.writes (layout : Layout) (c : Continuation) : List (List String × Scalar) :=
  List.zipWith (fun column value => (column.path, value.2)) layout.continuation c.values

theorem lastPresent_eq {column : Nat} {rows : List Row} (h : ∀ row ∈ rows, column < row.width) :
    lastPresent column rows = .ok (lastValue column rows) := by
  have hgo : ∀ later : List Row, (∀ row ∈ later, column < row.width) →
      lastPresent.go column later =
        .ok (((later.map fun row => row.toCells column).find? fun v => !v.isNull).getD .null) := by
    intro later hlater
    induction later with
    | nil => rfl
    | cons row rest ih =>
      obtain ⟨hrow, hrest⟩ := List.forall_mem_cons.1 hlater
      rw [lastPresent.go, Row.column_eq_toCells hrow, ok_bind, ih hrest, List.map_cons,
        List.find?_cons]
      cases (row.toCells column).isNull <;> rfl
  rw [lastPresent, hgo rows.reverse fun row hrow => h row (List.mem_reverse.1 hrow),
    List.map_reverse]
  rfl

/-- On rows wide enough a continuation has the last values, and its entry is written with them. -/
theorem continueAfter_eq {rows : List Row} {columns : List ContinuationColumn}
    (h : ∀ column ∈ columns, ∀ row ∈ rows, column.column < row.width) (e : Entry) :
    continueAfter rows columns e =
      .ok (columns.map (fun column => (column.property, lastValue column.column rows)),
        e.write (columns.map fun column => (column.path, lastValue column.column rows))) := by
  induction columns generalizing e with
  | nil => rfl
  | cons column rest ih =>
    obtain ⟨hcolumn, hrest⟩ := List.forall_mem_cons.1 h
    rw [continueAfter, lastPresent_eq hcolumn, ok_bind, ih hrest]
    rfl

namespace Layout

variable {layout : Layout} {rows : List Row}

/-- Values are written at the paths of their columns. -/
theorem writes_continuationAfter (layout : Layout) (rows : List Row) :
    layout.writes (layout.continuationAfter rows) =
      layout.continuation.map fun column => (column.path, lastValue column.column rows) := by
  rw [writes, continuationAfter, List.zipWith_map_right, List.zipWith_self]

/-- Rows that show the columns of the continuation. -/
def ShowsContinuation (layout : Layout) (rows : List Row) : Prop :=
  ∀ column ∈ layout.continuation, ∀ row ∈ rows, column.column < row.width

/-- On rows that show the continuation, no column is missing. -/
theorem ShowsContinuation.continueAfter_eq (h : layout.ShowsContinuation rows) (e : Entry) :
    continueAfter rows layout.continuation e =
      .ok ((layout.continuationAfter rows).values,
        e.write (layout.writes (layout.continuationAfter rows))) := by
  rw [writes_continuationAfter]
  exact QueryPlans.continueAfter_eq h e

/-- The rows of a group show what all rows show. -/
theorem ShowsContinuation.of_getElem?_groups (h : layout.ShowsContinuation rows) {k : Nat}
    {group : List Row} (hgroup : (layout.groups rows)[k]? = some group) :
    layout.ShowsContinuation group := fun column hcolumn row hrow => by
  refine h column hcolumn row ?_
  rw [← layout.flatten_groups rows]
  exact List.mem_flatten_of_mem (List.mem_of_getElem? hgroup) hrow

end Layout

/-- Every column of the continuation lies within the width of the layout. -/
theorem LevelSpec.continuation_lt_width {spec : LevelSpec} {layout : Layout}
    (h : spec.layout = .ok layout) {column : ContinuationColumn}
    (hcolumn : column ∈ layout.continuation) : column.column < layout.width :=
  column_lt_width h (List.mem_append_right _ (List.mem_map_of_mem hcolumn))

/-- Rows that are wide enough show the columns of the continuation. -/
theorem LevelSpec.showsContinuation {spec : LevelSpec} {layout : Layout}
    (h : spec.layout = .ok layout) {deliveries : List Delivery}
    (hwide : ∀ row, .row row ∈ deliveries → layout.width ≤ row.width) :
    layout.ShowsContinuation (readable deliveries) := fun _ hcolumn row hrow =>
  (continuation_lt_width h hcolumn).trans_le (hwide row (mem_of_mem_readable hrow))

/-! ## With and without a page size -/

namespace Materializer

variable {layout : Layout} {rows : List Row} {k n : Nat} {m m' : Materializer} {group : RowGroup}
  {entry : Entry} {result : Except ReadError (Option Entry) × Materializer}

/-- The page size does not matter for the first row of a group. -/
theorem firstRow_withPageSize (m : Materializer) (n : Nat) :
    (m.withPageSize n).firstRow = (m.firstRow.1, m.firstRow.2.withPageSize n) := by
  simp only [firstRow, withPageSize]
  split <;> rfl

/-- Nor does it for the rest of a group. -/
theorem readGroup_withPageSize (m : Materializer) (n : Nat) (first : Row) :
    (m.withPageSize n).readGroup first =
      ((m.readGroup first).1, (m.readGroup first).2.withPageSize n) := by
  simp only [readGroup, withPageSize]
  split <;> rfl

/-- Reading does not depend on the page size. -/
theorem gather_withPageSize (m : Materializer) (n : Nat) :
    (m.withPageSize n).gather = (m.gather.1, m.gather.2.withPageSize n) := by
  rw [gather, gather, firstRow_withPageSize]
  rcases m.firstRow with ⟨e | _ | first, m₁⟩
  · rfl
  · rfl
  · dsimp only
    rw [readGroup_withPageSize]
    rcases m₁.readGroup first with ⟨e | group, m₂⟩ <;> rfl

/-- A page that is not full leaves a call due. -/
theorem isDue_withPageSize (due : m.IsDue) (hlt : m.produced < n) : (m.withPageSize n).IsDue where
  finished := due.finished
  check := due.check
  room := decide_eq_false (Nat.not_le.2 hlt)

/-- **Up to the entry that fills the page**, a page size makes no difference to a call. -/
theorem Calls.withPageSize (h : m.Calls result) (hsize : m.pageSize = none)
    (hlt : m.finished = false → m.produced < n)
    (hroom : ∀ entry, m.finished = false → result.1 = .ok (some entry) → m.produced + 1 < n) :
    (m.withPageSize n).Calls (result.1, result.2.withPageSize n) := by
  have hdue (due : m.IsDue) : (m.withPageSize n).IsDue := isDue_withPageSize due (hlt due.finished)
  have hgather {outcome : Except ReadError (Option RowGroup)} {m' : Materializer}
      (h : m.gather = (outcome, m')) :
      (m.withPageSize n).gather = (outcome, m'.withPageSize n) := by
    rw [gather_withPageSize, h]
  -- A page size is looked at where a page may be full, which it is not, and where an entry is
  -- delivered.
  cases h with
  | idle h => exact .idle h
  | cancelled hopen h => exact .cancelled hopen h
  | pageFull _ _ h => simp [isPageFull, hsize] at h
  | unread due h => exact .unread (hdue due) (hgather h)
  | ended due h => exact .ended (hdue due) (hgather h)
  | unbuilt due h hdeliver =>
    have hreads := readsOn_of_gather h
    obtain ⟨hbuild, rfl⟩ := of_deliver_error (hreads.pageSize.trans hsize) hdeliver
    exact .unbuilt (hdue due) (hgather h) (deliver_of_error hbuild)
  | @yielded group entry m' m'' due h hdeliver =>
    have hreads := readsOn_of_gather h
    obtain ⟨hbuild, rfl⟩ := of_deliver_ok (hreads.pageSize.trans hsize) hdeliver
    have hproduced : m'.produced + 1 < n :=
      (congrArg (· + 1) hreads.produced).trans_lt (hroom entry due.finished rfl)
    refine .yielded (hdue due) (hgather h) (deliver_of_room ?_ hbuild)
    rintro _ ⟨⟩
    exact hproduced

/-- **The entry that fills the page** shows the continuation that is issued with it. -/
theorem deliver_of_full (hsize : m.pageSize = some n) (hfull : m.produced + 1 = n)
    (hbuild : m.layout.root.build group.run = .ok entry)
    (hshows : m.layout.ShowsContinuation group.run.rows) :
    m.deliver group =
      (.ok (entry.write (m.layout.writes (m.layout.continuationAfter group.run.rows))),
        { m with
          produced := m.produced + 1
          lookahead := group.next
          continuation := if m.layout.continuation = [] then none
            else some (m.layout.continuationAfter group.run.rows)
          finished := true }) := by
  have hcontinue := hshows.continueAfter_eq entry
  have hempty : (m.layout.continuationAfter group.run.rows).values.isEmpty =
      decide (m.layout.continuation = []) := by
    rw [Layout.continuationAfter]
    cases m.layout.continuation <;> rfl
  rw [deliver, hbuild]
  dsimp only
  rw [if_pos (by simp [isPageFull, hsize, hfull]), hcontinue]
  dsimp only
  rw [hempty]
  simp only [decide_eq_true_eq]

/-- **The last call of a page** next to the same call without a page size: it fills the page, or it
comes to what it comes to without. -/
inductive Closes (layout : Layout) (rows : List Row) (k : Nat)
    (full page : Except ReadError (Option Entry) × Materializer) : Prop
  | filled {run : Run} {entry : Entry} (hgroup : (layout.groups rows)[k]? = some run.rows)
    (hbuild : layout.root.build run = .ok entry) (hfull : full.1 = .ok (some entry))
    (hpage : page.1 =
      .ok (some (entry.write (layout.writes (layout.continuationAfter run.rows)))))
    (hissued : page.2.continuation =
      if layout.continuation = [] then none else some (layout.continuationAfter run.rows))
  | short (hfull : ∀ entry, full.1 ≠ .ok (some entry)) (hpage : page.1 = full.1)
    (hissued : page.2.continuation = none)

namespace Closes

variable {full page : Except ReadError (Option Entry) × Materializer}

/-- The continuation that is issued is what is different about the answer. -/
theorem fst_eq (h : Closes layout rows k full page) :
    page.1 = full.1.map (Option.map fun entry =>
      page.2.continuation.elim entry fun c => entry.write (layout.writes c)) := by
  cases h with
  | @filled run entry _ _ hfull hpage hissued =>
    rw [hpage, hfull, hissued]
    split
    · next hnil =>
      rw [Layout.writes, hnil]
      rfl
    · rfl
  | short hfull hpage hissued =>
    rw [hpage, hissued]
    rcases full.1 with e | _ | entry <;> rfl

/-- A continuation is issued with the entry that closes a page, where there are columns for it. -/
theorem isSome_continuation_iff (h : Closes layout rows k full page) :
    page.2.continuation.isSome ↔
      layout.continuation ≠ [] ∧ ∃ entry, page.1 = .ok (some entry) := by
  cases h with
  | filled _ _ _ hpage hissued =>
    rw [hpage, hissued]
    simp
  | short hfull hpage hissued =>
    rw [hpage, hissued]
    simp [hfull]

end Closes

/-- The call that yields the last entry without a page size fills the page. -/
theorem Progress.next_of_full (h : Progress layout rows k m) (due : m.IsDue)
    (hshows : m'.layout.ShowsContinuation group.run.rows)
    (hgather : m.gather = (.ok (some group), m'))
    (hbuild : m'.layout.root.build group.run = .ok entry) :
    (m.withPageSize (k + 1)).next =
      (.ok (some (entry.write (m'.layout.writes (m'.layout.continuationAfter group.run.rows)))),
        { m'.withPageSize (k + 1) with
          produced := m'.produced + 1
          lookahead := group.next
          continuation := if m'.layout.continuation = [] then none
            else some (m'.layout.continuationAfter group.run.rows)
          finished := true }) := by
  have hproduced := (h.reading due.finished).1
  have hlt : m.produced < k + 1 := hproduced.trans_lt (Nat.lt_succ_self k)
  have hfull : m'.produced + 1 = k + 1 :=
    congrArg (· + 1) ((readsOn_of_gather hgather).produced.trans hproduced)
  have hgather' : (m.withPageSize (k + 1)).gather =
      (.ok (some group), m'.withPageSize (k + 1)) := by
    rw [gather_withPageSize, hgather]
  have hfill := deliver_of_full (m := m'.withPageSize (k + 1)) rfl hfull hbuild hshows
  exact (Calls.yielded (isDue_withPageSize due hlt) hgather' hfill).next_eq

/-- **A page does not go on after its last call**, which has read what it reads without a page
size. -/
theorem Progress.closes (h : Progress layout rows k m) (hshows : layout.ShowsContinuation rows) :
    Closes layout rows k m.next (m.withPageSize (k + 1)).next ∧
      (m.withPageSize (k + 1)).next.2.finished = true ∧
      (m.withPageSize (k + 1)).next.2.cursor = m.next.2.cursor := by
  -- A call that yields no entry does not see the page size; one that yields an entry fills the
  -- page.
  by_cases hnone : ∀ entry, m.next.1 ≠ .ok (some entry)
  · have hcalls := m.calls.withPageSize (n := k + 1) h.pageSize
      (fun hopen => (h.reading hopen).1.trans_lt (Nat.lt_succ_self k))
      fun entry _ hentry => absurd hentry (hnone entry)
    rw [hcalls.next_eq]
    exact ⟨.short hnone rfl h.next.continuation, m.calls.finished_of_not_some hnone, rfl⟩
  · push Not at hnone
    obtain ⟨entry, hentry⟩ := hnone
    have hcalls := m.calls
    generalize m.next = result at hcalls hentry ⊢
    cases hcalls with
    | yielded due hgather hdeliver =>
      have hreads := readsOn_of_gather hgather
      obtain ⟨-, groups, -, hused⟩ := h.reading due.finished
      obtain rfl := hreads.layout.trans hused.layout_eq
      obtain ⟨hbuild, rfl⟩ := of_deliver_ok (hreads.pageSize.trans h.pageSize) hdeliver
      have hgroup := h.getElem?_groups due hgather
      rw [h.next_of_full due (hshows.of_getElem?_groups hgroup) hgather hbuild]
      exact ⟨.filled hgroup hbuild rfl rfl rfl, rfl, rfl⟩
    | _ => cases hentry

/-! ## Call by call -/

/-- **A call that does not fill the page** does what it does without one. -/
theorem Progress.next_withPageSize (h : Progress layout rows k m) (hlt : k + 1 < n) :
    (m.withPageSize n).next = (m.next.1, m.next.2.withPageSize n) := by
  refine (m.calls.withPageSize h.pageSize (fun hopen => ?_) fun _ hopen _ => ?_).next_eq
  · rw [(h.reading hopen).1]
    exact Nat.lt_of_succ_lt hlt
  · rwa [(h.reading hopen).1]

variable {i : Nat}

/-- **In front of its last call** a page is the materializer without a page size. -/
theorem Progress.after_withPageSize (h : Progress layout rows 0 m) (hlt : k < n) :
    (m.withPageSize n).after k = (m.after k).withPageSize n := by
  induction k with
  | zero => rfl
  | succ k ih =>
    rw [Materializer.after, ih (Nat.lt_of_succ_lt hlt), (h.after k).next_withPageSize hlt]
    rfl

/-- So all answers before the last one of a page are those of the full run. -/
theorem Progress.answer_withPageSize (h : Progress layout rows 0 m) (hlt : k + 1 < n) :
    (m.withPageSize n).answer k = m.answer k := by
  rw [answer, h.after_withPageSize (Nat.lt_of_succ_lt hlt), (h.after k).next_withPageSize hlt]
  rfl

/-- **The last call** of a page. -/
theorem Progress.closes_after (h : Progress layout rows 0 m)
    (hshows : layout.ShowsContinuation rows) (k : Nat) :
    Closes layout rows k (m.after k).next ((m.withPageSize (k + 1)).after k).next ∧
      ((m.withPageSize (k + 1)).after (k + 1)).finished = true ∧
      ((m.withPageSize (k + 1)).after (k + 1)).cursor = (m.after (k + 1)).cursor := by
  rw [Materializer.after, h.after_withPageSize (Nat.lt_succ_self k)]
  exact (h.after k).closes hshows

/-- A page without entries is at its end. -/
theorem next_withPageSize_zero (due : m.IsDue) :
    (m.withPageSize 0).next = (.ok none, { m.withPageSize 0 with finished := true }) := by
  have hcalls : (m.withPageSize 0).Calls (.ok none, { m.withPageSize 0 with finished := true }) :=
    .pageFull due.finished due.check (decide_eq_true (Nat.zero_le m.produced))
  exact hcalls.next_eq

/-- **Behind its last call** a page has nothing more to say, and stays as it is. -/
theorem Progress.behind_page (h : Progress layout rows 0 m) (due : m.IsDue)
    (hshows : layout.ShowsContinuation rows) (hle : n ≤ i) :
    (m.withPageSize n).answer i = .ok none ∧
      ((m.withPageSize n).after i).cursor = (m.after n).cursor ∧
      ((m.withPageSize n).after i).continuation = ((m.withPageSize n).after n).continuation := by
  cases n with
  | zero =>
    have hnext := next_withPageSize_zero due
    cases i with
    | zero => exact ⟨congrArg Prod.fst hnext, rfl, rfl⟩
    | succ i =>
      have hafter : (m.withPageSize 0).after 1 = { m.withPageSize 0 with finished := true } :=
        congrArg Prod.snd hnext
      have hfinished : ((m.withPageSize 0).after 1).finished = true := by rw [hafter]
      have hle : 1 ≤ i + 1 := Nat.succ_pos i
      rw [after_of_finished hfinished hle, hafter]
      exact ⟨answer_of_finished hfinished hle, rfl, rfl⟩
  | succ k =>
    obtain ⟨-, hfinished, hcursor⟩ := h.closes_after hshows k
    rw [after_of_finished hfinished hle]
    exact ⟨answer_of_finished hfinished hle, hcursor, rfl⟩

/-- A page has read what as many calls read without a page size. -/
theorem Progress.cursor_withPageSize (h : Progress layout rows 0 m) (due : m.IsDue)
    (hshows : layout.ShowsContinuation rows) (n i : Nat) :
    ((m.withPageSize n).after i).cursor = (m.after (min i n)).cursor := by
  rcases Nat.lt_or_ge i n with hlt | hle
  · rw [h.after_withPageSize hlt, Nat.min_eq_left hlt.le]
    rfl
  · rw [(h.behind_page due hshows hle).2.1, Nat.min_eq_right hle]

/-- **A continuation is issued** with the entry that fills the page. -/
theorem Progress.isSome_continuation_iff (h : Progress layout rows 0 m) (due : m.IsDue)
    (hshows : layout.ShowsContinuation rows) (n i : Nat) :
    ((m.withPageSize n).after i).continuation.isSome ↔
      layout.continuation ≠ [] ∧ 1 ≤ n ∧ n ≤ i ∧
        ∃ entry, (m.withPageSize n).answer (n - 1) = .ok (some entry) := by
  rcases Nat.lt_or_ge i n with hlt | hle
  · have hnone : ((m.withPageSize n).after i).continuation = none := by
      rw [h.after_withPageSize hlt]
      exact (h.after i).continuation
    simp [hnone, hlt]
  · rw [(h.behind_page due hshows hle).2.2]
    cases n with
    | zero =>
      have hnone : ((m.withPageSize 0).after 0).continuation = none := h.continuation
      simp [hnone]
    | succ k =>
      rw [Materializer.after, (h.closes_after hshows k).1.isSome_continuation_iff]
      simp [hle, answer]

/-- **A page is the beginning of the result.**  Its calls answer what they answer without a page
size, up to the call that can fill the page; the entry that fills it shows the values of the
continuation that is issued with it, and nothing comes behind.  A page of no entries pulls no row,
and any other at most one row behind its groups. -/
theorem page_eq_prefix (spec : LevelSpec) (layout : Layout) (hlayout : spec.layout = .ok layout)
    (deliveries : List Delivery) (hwide : ∀ row, .row row ∈ deliveries → layout.width ≤ row.width)
    (limit n : Nat) :
    let full := ofCursor layout (.ofDeliveries deliveries) limit
    let page := full.withPageSize n
    (∀ i, i + 1 < n → page.answer i = full.answer i) ∧
    (∀ i, i + 1 = n → page.answer i = (full.answer i).map (Option.map fun entry =>
      (page.after n).continuation.elim entry fun c => entry.write (layout.writes c))) ∧
    (∀ i, n ≤ i → page.answer i = .ok none) ∧
    (∀ i j, (∀ entry, full.answer i ≠ .ok (some entry)) → i < j → full.answer j = .ok none) ∧
    (n = 0 → ∀ i, (page.after i).cursor = .ofDeliveries deliveries) ∧
    (∀ i, (page.after i).cursor.fetched ≤ layout.extent (readable deliveries) n + 1) ∧
    (∀ i, (page.after i).continuation.isSome ↔
      layout.continuation ≠ [] ∧ 1 ≤ n ∧ n ≤ i ∧
        ∃ entry, page.answer (n - 1) = .ok (some entry)) := by
  intro full page
  have hprogress := Progress.ofDeliveries layout deliveries limit
  have hshows := LevelSpec.showsContinuation hlayout hwide
  have due : full.IsDue := ⟨rfl, rfl, rfl⟩
  refine ⟨fun i hlt => hprogress.answer_withPageSize hlt, ?_,
    fun i hle => (hprogress.behind_page due hshows hle).1, fun i j => answer_of_lt, ?_, fun i => ?_,
    hprogress.isSome_continuation_iff due hshows n⟩
  · rintro i rfl
    exact (hprogress.closes_after hshows i).1.fst_eq
  · rintro rfl i
    rw [hprogress.cursor_withPageSize due hshows, Nat.min_zero]
    rfl
  · rw [hprogress.cursor_withPageSize due hshows]
    exact (hprogress.after _).fetched_le.trans
      (Nat.succ_le_succ (layout.extent_mono _ (Nat.min_le_right i n)))

end Materializer

/-! ## Orders, whose pages continue by the last item -/

/-- Orders have a customer and items.  Where a page ends, the number of the last item is shown with
the order and with its customer. -/
def LevelSpec.orders : LevelSpec :=
  ((((empty.key "Id" 0).navigation "Customer" .single (empty.key "Id" 1)).navigation
    "Items" .collection (empty.key "No" 2)).continueBy ⟨"No", ["Last"], 2⟩).continueBy
    ⟨"No", ["Customer", "Last"], 2⟩

/-- Orders by `Id` with a customer and items, continued at the root and below the customer. -/
def Layout.orders : Layout where
  root := .mk ⟨0, .root, [⟨"Id", 0⟩], [0], [0], [0, 1, 2], none, 0⟩
    [.mk ⟨1, .navigation "Customer" .single, [⟨"Id", 1⟩], [1], [1], [1], some 0, 1⟩ [],
      .mk ⟨2, .navigation "Items" .collection, [⟨"No", 2⟩], [2], [2], [2], some 0, 1⟩ []]
  continuation := [⟨"No", ["Last"], 2⟩, ⟨"No", ["Customer", "Last"], 2⟩]
  width := 3

/-- Two orders, the first of which ends with a row without an item; then the source fails. -/
def Delivery.orders : List Delivery :=
  [.row ⟨[.int 1, .int 7, .int 1]⟩, .row ⟨[.int 1, .int 7, .int 2]⟩, .row ⟨[.int 1, .int 7, .null]⟩,
    .row ⟨[.int 2, .int 8, .int 3]⟩, .failure "gone"]

theorem Delivery.width_le_of_mem_orders :
    ∀ row, .row row ∈ Delivery.orders → Layout.orders.width ≤ row.width := by
  simp [Delivery.orders, Layout.orders, Row.width]

/-- A page of one order reads the first row of the next one, and does not see the failure. -/
theorem Materializer.page_eq_prefix_orders :
    let page := (ofCursor .orders (.ofDeliveries Delivery.orders) 3).withPageSize 1
    (∀ i, 1 ≤ i → page.answer i = .ok none) ∧ (∀ i, (page.after i).cursor.fetched ≤ 4) ∧
      (page.after 1).continuation.isSome := by
  intro page
  obtain ⟨-, -, hbehind, -, -, hfetched, hissued⟩ := page_eq_prefix .orders .orders rfl
    Delivery.orders Delivery.width_le_of_mem_orders 3 1
  have hextent : Layout.orders.extent (readable Delivery.orders) 1 = 3 := rfl
  rw [hextent] at hfetched
  exact ⟨hbehind, hfetched,
    (hissued 1).2 ⟨List.cons_ne_nil _ _, Nat.le_refl 1, Nat.le_refl 1, _, rfl⟩⟩

end QueryPlans
