import QueryPlans.Proofs.Schedule.Consumer

/-!
# Proofs/Schedule/Entries — a materializer that may be cancelled at any time

As long as no call has failed, the calls so far have used whole groups of the rows that the source
delivers, one for each entry (`Materializer.Uses`); neither a page size nor the signal changes that.
So an entry always shows a whole group, and a call that finds no more rows has delivered all groups.
A materializer is finished exactly if it has said so, by a fault, by none, or by the last entry of
its page (`Materializer.Played`).
-/

namespace QueryPlans

namespace Materializer

/-! ## Calls behind whose first look the signal is raised -/

/-- Raises the signal, or leaves it as it is. -/
def signal (m : Materializer) (raised : Bool) : Materializer :=
  { m with cursor := m.cursor.signal raised }

/-- A call behind its first look at the signal. -/
def proceed (m : Materializer) : Except ReadError (Option Entry) × Materializer :=
  if m.isPageFull then (.ok none, { m with finished := true })
  else
    match m.gather with
    | (.error e, m) => (.error e, m.abort)
    | (.ok none, m) => (.ok none, { m with finished := true })
    | (.ok (some group), m) =>
      match m.deliver group with
      | (.error e, m) => (.error e, m.abort)
      | (.ok entry, m) => (.ok (some entry), m)

/-- **A call**, and whether the signal is raised behind its first look. -/
def call (m : Materializer) (raised : Bool) : Except ReadError (Option Entry) × Materializer :=
  if m.finished then (.ok none, m.signal raised)
  else
    match m.cursor.check with
    | .error e => (.error e, (m.signal raised).abort)
    | .ok () => (m.signal raised).proceed

/-- The materializer as a consumer of rows. -/
def consumer : Consumer Unit Materializer (Except ReadError (Option Entry)) where
  call _ raised m := m.call raised
  cancel := cancel
  cursor := cursor

/-- What is left of a call behind its first look comes to one of these. -/
inductive Proceeds (m : Materializer) : Except ReadError (Option Entry) × Materializer → Prop
  | pageFull (h : m.isPageFull = true) : Proceeds m (.ok none, { m with finished := true })
  | unread {e : ReadError} {m' : Materializer} (hroom : m.isPageFull = false)
    (h : m.gather = (.error e, m')) : Proceeds m (.error e, m'.abort)
  | ended {m' : Materializer} (hroom : m.isPageFull = false) (h : m.gather = (.ok none, m')) :
    Proceeds m (.ok none, { m' with finished := true })
  | unbuilt {group : RowGroup} {e : ReadError} {m' m'' : Materializer}
    (hroom : m.isPageFull = false) (h : m.gather = (.ok (some group), m'))
    (hdeliver : m'.deliver group = (.error e, m'')) : Proceeds m (.error e, m''.abort)
  | yielded {group : RowGroup} {entry : Entry} {m' m'' : Materializer}
    (hroom : m.isPageFull = false) (h : m.gather = (.ok (some group), m'))
    (hdeliver : m'.deliver group = (.ok entry, m'')) : Proceeds m (.ok (some entry), m'')

/-- A call behind its first look does one of five things, by the page, the rows and the group. -/
theorem proceeds (m : Materializer) : m.Proceeds m.proceed := by
  rw [proceed]
  cases hroom : m.isPageFull with
  | true => exact .pageFull hroom
  | false =>
    rcases hgather : m.gather with ⟨e | _ | group, m'⟩
    · exact .unread hroom hgather
    · exact .ended hroom hgather
    · dsimp only [Bool.false_eq_true, if_false]
      rcases hdeliver : m'.deliver group with ⟨e | entry, m''⟩
      · exact .unbuilt hroom hgather hdeliver
      · exact .yielded hroom hgather hdeliver

/-- A call that is not interrupted. -/
theorem call_false (m : Materializer) : m.call false = m.next := by
  have hsignal : m.signal false = m := rfl
  have hcalls := m.calls
  rw [call, hsignal, proceed]
  generalize m.next = result at hcalls ⊢
  cases hcalls with
  | idle h => rw [if_pos h]
  | cancelled hopen h => simp [hopen, h]
  | pageFull hopen hcheck h => simp [hopen, hcheck, h]
  | unread due h | ended due h => simp [due.finished, due.check, due.room, h]
  | unbuilt due h hdeliver | yielded due h hdeliver =>
    simp [due.finished, due.check, due.room, h, hdeliver]

/-! ## What a call changes -/

variable {m m' : Materializer} {group : RowGroup} {entry : Entry}

/-- Taking the first row of a group touches the cursor and the held row alone. -/
theorem exists_eq_of_firstRow {outcome : Except ReadError (Option Row)}
    (h : m.firstRow = (outcome, m')) :
    ∃ cursor lookahead, m.cursor.Moves cursor ∧ m' = { m with cursor, lookahead } := by
  rcases firstRow_cases h with ⟨row, -, -, rfl⟩ | ⟨-, cursor, hfetch, rfl⟩
  · exact ⟨m.cursor, none, .refl, rfl⟩
  · exact ⟨cursor, m.lookahead, Cursor.moves_of_fetch hfetch, rfl⟩

/-- Gathering moves the cursor, and changes what is held. -/
theorem exists_eq_of_gather {outcome : Except ReadError (Option RowGroup)}
    (h : m.gather = (outcome, m')) : ∃ cursor lookahead highWater,
      m.cursor.Moves cursor ∧ m' = { m with cursor, lookahead, highWater } := by
  cases gathers h with
  | unread hfirst | ended hfirst =>
    obtain ⟨cursor, lookahead, hmoves, rfl⟩ := exists_eq_of_firstRow hfirst
    exact ⟨cursor, lookahead, m.highWater, hmoves, rfl⟩
  | @broken first _ m₁ _ hfirst hgroup | @gathered first _ m₁ _ hfirst hgroup =>
    obtain ⟨cursor, lookahead, hmoves, rfl⟩ := exists_eq_of_firstRow hfirst
    rcases readGroup_cases _ first with ⟨e, highWater, heq⟩ |
        ⟨outcome, group, cursor', highWater, hscans, heq⟩
    · obtain rfl := congrArg Prod.snd (hgroup.symm.trans heq)
      exact ⟨cursor, lookahead, highWater, hmoves, rfl⟩
    · obtain rfl := congrArg Prod.snd (hgroup.symm.trans heq)
      exact ⟨cursor', lookahead, highWater, hmoves.trans hscans.moves, rfl⟩

/-- Delivering reads nothing. -/
theorem exists_eq_of_deliver {outcome : Except ReadError Entry}
    (h : m.deliver group = (outcome, m')) : ∃ lookahead produced finished continuation,
      m' = { m with lookahead, produced, finished, continuation } := by
  obtain rfl := congrArg Prod.snd h
  rw [deliver]
  split
  · exact ⟨_, _, _, _, rfl⟩
  · dsimp only
    split
    · split <;> exact ⟨_, _, _, _, rfl⟩
    · exact ⟨_, _, _, _, rfl⟩

/-- **An entry that shows rows**: it is built from them, and those values may be written to it that
the continuation takes from them. -/
def ShowsRows (layout : Layout) (run : Run) (entry : Entry) : Prop :=
  ∃ built, layout.root.build run = .ok built ∧
    (entry = built ∨
      ∃ values, continueAfter run.rows layout.continuation built = .ok (values, entry))

/-- **An entry that is delivered.** -/
structure Completes (m : Materializer) (group : RowGroup) (entry : Entry) (m' : Materializer) :
    Prop where
  shows : ShowsRows m.layout group.run entry
  layout_eq : m'.layout = m.layout
  cursor_eq : m'.cursor = m.cursor
  pageSize_eq : m'.pageSize = m.pageSize
  lookahead_eq : m'.lookahead = group.next
  produced_eq : m'.produced = m.produced + 1
  finished_eq : m'.finished = (m.finished || m'.isPageFull)

/-- A group that is delivered whole is an entry. -/
theorem completes_of_deliver (h : m.deliver group = (.ok entry, m')) :
    m.Completes group entry m' := by
  rw [deliver] at h
  split at h
  · cases h
  · next built hbuild =>
    dsimp only at h
    split at h
    · next hfull =>
      split at h
      · cases h
      · next values written hcontinue =>
        cases h
        refine ⟨⟨built, hbuild, .inr ⟨values, hcontinue⟩⟩, rfl, rfl, rfl, rfl, rfl, ?_⟩
        exact (Bool.or_true m.finished).symm.trans (congrArg (m.finished || ·) hfull.symm)
    · next hroom =>
      cases h
      refine ⟨⟨entry, hbuild, .inl rfl⟩, rfl, rfl, rfl, rfl, rfl, ?_⟩
      exact (Bool.or_false m.finished).symm.trans
        (congrArg (m.finished || ·) (Bool.not_eq_true _ ▸ hroom).symm)

/-- A call only moves the cursor. -/
theorem moves_proceed (m : Materializer) : m.cursor.Moves m.proceed.2.cursor := by
  have hproceeds := m.proceeds
  generalize m.proceed = result at hproceeds ⊢
  cases hproceeds with
  | pageFull => exact .refl
  | unread _ h | ended _ h =>
    obtain ⟨cursor, _, _, hmoves, rfl⟩ := exists_eq_of_gather h
    exact hmoves
  | unbuilt _ h hdeliver | yielded _ h hdeliver =>
    obtain ⟨cursor, _, _, hmoves, rfl⟩ := exists_eq_of_gather h
    obtain ⟨_, _, _, _, rfl⟩ := exists_eq_of_deliver hdeliver
    exact hmoves

theorem onlyMoves_consumer : consumer.OnlyMoves where
  call _ raised m := by
    change (m.cursor.signal raised).Moves (m.call raised).2.cursor
    rw [call]
    split
    · exact .refl
    · split
      · exact .refl
      · exact (m.signal raised).moves_proceed
  cancel _ := rfl

/-! ## Whole groups -/

/-- **Whole groups** of the rows that are delivered have been used, and the row that is held comes
behind them. -/
structure Uses (m : Materializer) (layout : Layout) (deliveries : List Delivery)
    (groups : List (List Row)) : Prop extends m.HasUsed layout (readable deliveries) groups where
  pending_eq : deliveries = (groups.flatten ++ m.lookahead.toList).map .row ++ m.cursor.pending

/-- **A group of the rows that are delivered**, and no part of one: the source delivers a row of
another one behind it, or comes to its end. -/
def IsWhole (layout : Layout) (deliveries : List Delivery) (i : Nat) (group : List Row) : Prop :=
  (layout.groups (readable deliveries))[i]? = some group ∧
    (i + 1 < (layout.groups (readable deliveries)).length ∨
      deliveries = (readable deliveries).map .row)

variable {layout : Layout} {deliveries : List Delivery} {groups : List (List Row)}

/-- Only what is read and what is held count. -/
theorem Uses.congr (h : m.Uses layout deliveries groups) (hlayout : m'.layout = m.layout)
    (hcursor : m'.cursor = m.cursor) (hlookahead : m'.lookahead = m.lookahead) :
    m'.Uses layout deliveries groups := by
  have hcoming : m'.coming = m.coming := by rw [coming, coming, hcursor, hlookahead]
  refine ⟨⟨hlayout.trans h.layout_eq, ?_, ?_, ?_⟩, ?_⟩
  · rw [hcoming]
    exact h.groups_eq
  · rw [hcursor, hlookahead]
    exact h.fetched_eq
  · rw [hcursor]
    exact h.endsLast
  · rw [hcursor, hlookahead]
    exact h.pending_eq

/-- A signal uses no row. -/
theorem Uses.signal (h : m.Uses layout deliveries groups) (raised : Bool) :
    (m.signal raised).Uses layout deliveries groups := by
  cases raised with
  | false => exact h
  | true => exact ⟨⟨h.layout_eq, h.groups_eq, h.fetched_eq, h.endsLast⟩, h.pending_eq⟩

/-- No group is gathered only where no row is held and the source has ended. -/
theorem of_gather_none (h : m.gather = (.ok none, m')) :
    m.lookahead = none ∧
      ∃ cursor, m.cursor.fetch = (.ok none, cursor) ∧ m' = { m with cursor } := by
  cases gathers h with
  | ended hfirst =>
    rcases firstRow_cases hfirst with ⟨row, -, hsome, -⟩ | h
    · cases hsome
    · exact h

/-- **A call that finds no more rows** has nothing behind it, and used all groups before. -/
theorem Uses.of_gather_none (h : m.Uses layout deliveries groups)
    (hgather : m.gather = (.ok none, m')) :
    m'.Uses layout deliveries groups ∧ layout.groups (readable deliveries) = groups ∧
      deliveries = (readable deliveries).map .row := by
  obtain ⟨hlookahead, cursor, hfetch, rfl⟩ := Materializer.of_gather_none hgather
  have hpulled := Cursor.hasPulled_of_fetch hfetch
  have hpending : m.cursor.pending = cursor.pending := hpulled.pending_eq
  have hend : m.cursor.pending = [] := hpending.trans (h.endsLast.pending_of_fetch hfetch)
  have hcoming : m.coming = [] := by
    rw [coming, hlookahead, hend]
    rfl
  have hdeliveries : deliveries = groups.flatten.map .row := by
    have heq := h.pending_eq
    rwa [hlookahead, hend, Option.toList_none, List.append_nil, List.append_nil] at heq
  refine ⟨⟨⟨h.layout_eq, ?_, hpulled.fetched_eq.trans h.fetched_eq,
    hpulled.endsLast h.endsLast⟩, ?_⟩, ?_, ?_⟩
  · rw [h.groups_eq, coming, coming, hpending]
  · rw [← hpending]
    exact h.pending_eq
  · rw [h.groups_eq, hcoming]
    exact List.append_nil groups
  · rw [hdeliveries, readable_map_row]

/-- The first row of a group was held or pending, and what was behind it still is. -/
theorem pending_of_firstRow {first : Row} (h : m.firstRow = (.ok (some first), m')) :
    m.lookahead.toList.map .row ++ m.cursor.pending = .row first :: m'.cursor.pending ∧
      (m.cursor.EndsLast → m'.cursor.EndsLast) := by
  rcases firstRow_cases h with ⟨row, hlookahead, hrow, rfl⟩ | ⟨hlookahead, cursor, hfetch, rfl⟩
  · cases hrow
    rw [hlookahead]
    exact ⟨rfl, id⟩
  · have hpulled := Cursor.hasPulled_of_fetch hfetch
    rw [hlookahead]
    exact ⟨hpulled.pending_eq, hpulled.endsLast⟩

/-- **A call that gathers a group** gathers a whole one. -/
theorem Uses.of_gather_some (h : m.Uses layout deliveries groups)
    (hgather : m.gather = (.ok (some group), m')) :
    Uses { m' with lookahead := group.next } layout deliveries (groups ++ [group.run.rows]) ∧
      IsWhole layout deliveries groups.length group.run.rows := by
  have hused := h.toHasUsed.of_gather_some hgather
  have hgroups := hused.groups_eq
  cases gathers hgather with
  | gathered hfirst hgroup =>
    obtain ⟨hpending, hends⟩ := pending_of_firstRow hfirst
    obtain ⟨more, hreads⟩ := of_readGroup_ok hgroup
    have hdeliveries : deliveries =
        ((groups ++ [group.run.rows]).flatten ++ group.next.toList).map .row ++
          m'.cursor.pending := by
      have heq := h.pending_eq
      rw [List.map_append, List.append_assoc, hpending, hreads.pulled.pending_eq] at heq
      rw [heq, hreads.rows_eq]
      simp
    refine ⟨⟨hused, hdeliveries⟩, ?_, ?_⟩
    · rw [hgroups, List.append_assoc, List.getElem?_append_right (Nat.le_refl _), Nat.sub_self]
      rfl
    -- A group is whole because a row of another one follows, or because the rows have ended.
    · cases hnext : group.next with
      | none =>
        have hend := hreads.ended hnext (hends h.endsLast)
        right
        rw [hnext, hend, Option.toList_none, List.append_nil, List.append_nil] at hdeliveries
        rw [hdeliveries, readable_map_row]
      | some next =>
        left
        have hne : layout.groups (coming { m' with lookahead := group.next }) ≠ [] := by
          rw [coming, hnext]
          exact List.splitBy_ne_nil.2 (List.cons_ne_nil _ _)
        have hpos := List.length_pos_of_ne_nil hne
        rw [hgroups, List.length_append, List.length_append, List.length_singleton]
        omega

/-! ## Runs -/

/-- The entries among answers. -/
def entriesOf (answers : List (Except ReadError (Option Entry))) : List Entry :=
  answers.filterMap fun answer => answer.toOption.join

/-- **Answers behind which nothing comes**: a fault, none, or the last entry of a full page. -/
def Ends (pageSize : Option Nat) (answers : List (Except ReadError (Option Entry))) : Prop :=
  (∃ e, .error e ∈ answers) ∨ .ok none ∈ answers ∨
    ∃ n ∈ pageSize, 0 < n ∧ n ≤ (entriesOf answers).length

variable {pageSize : Option Nat} {answers : List (Except ReadError (Option Entry))} {e : ReadError}

@[simp] theorem entriesOf_concat_none (answers : List (Except ReadError (Option Entry))) :
    entriesOf (answers ++ [.ok none]) = entriesOf answers := by
  simp [entriesOf, Except.toOption]

@[simp] theorem entriesOf_concat_some (answers : List (Except ReadError (Option Entry)))
    (entry : Entry) :
    entriesOf (answers ++ [.ok (some entry)]) = entriesOf answers ++ [entry] := by
  simp [entriesOf, Except.toOption]

/-- An entry ends nothing, unless it fills the page. -/
theorem ends_concat_some (h : ¬ Ends pageSize answers) :
    Ends pageSize (answers ++ [.ok (some entry)]) ↔
      ∃ n ∈ pageSize, 0 < n ∧ n ≤ (entriesOf answers).length + 1 := by
  rw [Ends, not_or, not_or] at h
  simp [Ends, not_exists.1 h.1, h.2.1]

/-- **A materializer after a run**: it is finished exactly if it has said so, holds nothing after a
fault, and has used one whole group for each entry before. -/
structure Played (layout : Layout) (deliveries : List Delivery) (pageSize : Option Nat)
    (answers : List (Except ReadError (Option Entry))) (m : Materializer) : Prop where
  pageSize_eq : m.pageSize = pageSize
  finished_iff : m.finished = true ↔ Ends pageSize answers
  released : (∃ e, .error e ∈ answers) → m.lookahead = none
  uses : (∀ e, .error e ∉ answers) → m.produced = (entriesOf answers).length ∧
    ∃ groups, groups.length = (entriesOf answers).length ∧ m.Uses layout deliveries groups

namespace Played

/-- A signal is no answer. -/
theorem signal (h : Played layout deliveries pageSize answers m) (raised : Bool) :
    Played layout deliveries pageSize answers (m.signal raised) where
  pageSize_eq := h.pageSize_eq
  finished_iff := h.finished_iff
  released := h.released
  uses hno := by
    obtain ⟨hproduced, groups, hlength, huses⟩ := h.uses hno
    exact ⟨hproduced, groups, hlength, huses.signal raised⟩

/-- A call that fails. -/
theorem concat_error (hsize : m.pageSize = pageSize) :
    Played layout deliveries pageSize (answers ++ [.error e]) m.abort where
  pageSize_eq := hsize
  finished_iff := iff_of_true rfl (.inl ⟨e, by simp⟩)
  released _ := rfl
  uses hno := absurd (by simp) (hno e)

/-- A call that comes to the end. -/
theorem concat_none (h : Played layout deliveries pageSize answers m)
    (hfinished : m'.finished = true) (hsize : m'.pageSize = m.pageSize)
    (hproduced : m'.produced = m.produced) (hlookahead : m'.lookahead = m.lookahead)
    (huses : ∀ groups, m.Uses layout deliveries groups → m'.Uses layout deliveries groups) :
    Played layout deliveries pageSize (answers ++ [.ok none]) m' where
  pageSize_eq := hsize.trans h.pageSize_eq
  finished_iff := iff_of_true hfinished (.inr (.inl (by simp)))
  released herror := hlookahead.trans (h.released (by simpa using herror))
  uses hno := by
    obtain ⟨hcount, groups, hlength, hused⟩ := h.uses (by simpa using hno)
    rw [entriesOf_concat_none]
    exact ⟨hproduced.trans hcount, groups, hlength, huses groups hused⟩

/-- A call that yields an entry has used one more group. -/
theorem concat_some (h : Played layout deliveries pageSize answers m)
    (hopen : m.finished = false) (hroom : m.isPageFull = false) {m'' : Materializer}
    (hgather : m.gather = (.ok (some group), m')) (hdeliver : m'.deliver group = (.ok entry, m'')) :
    Played layout deliveries pageSize (answers ++ [.ok (some entry)]) m'' := by
  have hends : ¬ Ends pageSize answers := fun hends => by
    rw [h.finished_iff.2 hends] at hopen
    cases hopen
  have hno : ∀ e, .error e ∉ answers := fun e he => hends (.inl ⟨e, he⟩)
  obtain ⟨hproduced, groups, hlength, huses⟩ := h.uses hno
  obtain ⟨hused, -⟩ := huses.of_gather_some hgather
  have hcompletes := completes_of_deliver hdeliver
  obtain ⟨_, _, _, -, rfl⟩ := exists_eq_of_gather hgather
  have hproduced' : m''.produced = (entriesOf answers).length + 1 :=
    hcompletes.produced_eq.trans (congrArg (· + 1) hproduced)
  have hfull : m''.finished = pageSize.any fun n => n ≤ (entriesOf answers).length + 1 := by
    rw [hcompletes.finished_eq, isPageFull, hcompletes.pageSize_eq, hproduced', ← h.pageSize_eq]
    exact (congrArg (· || _) hopen).trans (Bool.false_or _)
  refine ⟨hcompletes.pageSize_eq.trans h.pageSize_eq, ?_, fun herror => ?_, fun _ => ?_⟩
  · rw [ends_concat_some hends, hfull, Option.any_eq_true]
    refine exists_congr fun n => and_congr_right fun hn => ?_
    have hlt : m.produced < n := by
      rw [isPageFull, h.pageSize_eq, hn, Option.any_some, decide_eq_false_iff_not] at hroom
      exact Nat.lt_of_not_le hroom
    rw [decide_eq_true_iff, and_iff_right (Nat.zero_lt_of_lt hlt)]
  · exact absurd (by simpa using herror) (not_exists.2 hno)
  · rw [entriesOf_concat_some, List.length_append]
    refine ⟨hproduced', groups ++ [group.run.rows], ?_, ?_⟩
    · rw [List.length_append, hlength]
      rfl
    · exact hused.congr hcompletes.layout_eq hcompletes.cursor_eq hcompletes.lookahead_eq

/-- **One call** of an open materializer: its answer is added and the state is again one after a
run. -/
theorem proceed (h : Played layout deliveries pageSize answers m) (hopen : m.finished = false) :
    Played layout deliveries pageSize (answers ++ [m.proceed.1]) m.proceed.2 := by
  have hproceeds := m.proceeds
  generalize m.proceed = result at hproceeds ⊢
  cases hproceeds with
  | pageFull => exact h.concat_none rfl rfl rfl rfl fun _ hused => hused.congr rfl rfl rfl
  | unread _ hgather =>
    obtain ⟨_, _, _, -, rfl⟩ := exists_eq_of_gather hgather
    exact concat_error h.pageSize_eq
  | ended _ hgather =>
    obtain ⟨-, cursor, -, rfl⟩ := Materializer.of_gather_none hgather
    exact h.concat_none rfl rfl rfl rfl fun _ hused =>
      (hused.of_gather_none hgather).1.congr rfl rfl rfl
  | unbuilt _ hgather hdeliver =>
    obtain ⟨_, _, _, -, rfl⟩ := exists_eq_of_gather hgather
    obtain ⟨_, _, _, _, rfl⟩ := exists_eq_of_deliver hdeliver
    exact concat_error h.pageSize_eq
  | yielded hroom hgather hdeliver => exact h.concat_some hopen hroom hgather hdeliver

/-- **A call, interrupted or not**, leaves a materializer as it should. -/
theorem call (h : Played layout deliveries pageSize answers m) (raised : Bool) :
    Played layout deliveries pageSize (answers ++ [(m.call raised).1]) (m.call raised).2 := by
  rw [Materializer.call]
  cases hfinished : m.finished with
  | true =>
    exact (h.signal raised).concat_none hfinished rfl rfl rfl fun _ => id
  | false =>
    cases m.cursor.check with
    | error e => exact concat_error h.pageSize_eq
    | ok _ => exact (h.signal raised).proceed hfinished

end Played

/-- Nothing has been asked of a new materializer. -/
theorem played_ofCursor (layout : Layout) (source : Cursor) (hfetched : source.fetched = 0)
    (hexhausted : source.exhausted = false) (limit : Nat) (pageSize : Option Nat) :
    Played layout source.pending pageSize [] { ofCursor layout source limit with pageSize } where
  pageSize_eq := rfl
  finished_iff := by simp [Ends, entriesOf, ofCursor]
  released := by simp
  uses _ := by
    refine ⟨rfl, [], rfl, ⟨⟨rfl, rfl, hfetched, fun hend => ?_⟩, rfl⟩⟩
    cases hexhausted.symm.trans hend

/-- **Every run** leaves a materializer as it should. -/
theorem Played.of_plays {start : Materializer} (hstart : Played layout deliveries pageSize [] start)
    (h : consumer.Plays start answers m) : Played layout deliveries pageSize answers m := by
  induction h with
  | nil => exact hstart
  | call _ how raised ih => exact ih.call raised
  | cancel _ ih => exact ih.signal true

/-! ## What a call answers -/

/-- **A materializer that ends cleanly**, whatever was done so far. -/
structure EndsCleanly (layout : Layout) (deliveries : List Delivery) (pageSize : Option Nat)
    (answers : List (Except ReadError (Option Entry))) (m : Materializer) : Prop where
  /-- An entry shows the whole group that has its number. -/
  whole : ∀ raised entry, (m.call raised).1 = .ok (some entry) → ∃ run,
    IsWhole layout deliveries (entriesOf answers).length run.rows ∧ ShowsRows layout run entry
  /-- None is answered behind an end, for an empty page, and when all groups were delivered. -/
  complete : ∀ raised, (m.call raised).1 = .ok none →
    Ends pageSize answers ∨ pageSize = some 0 ∨
      (layout.groups (readable deliveries)).length = (entriesOf answers).length ∧
        deliveries = (readable deliveries).map .row
  /-- The first look at the signal ends what has not ended before. -/
  cancelled : m.cursor.cancelled = true → ¬ Ends pageSize answers →
    ∀ raised, (m.call raised).1 = .error .cancelled
  /-- Behind an end there is nothing, and nothing is pulled. -/
  ended : Ends pageSize answers →
    ∀ raised, (m.call raised).1 = .ok none ∧ (m.call raised).2.cursor.pulls = m.cursor.pulls
  /-- No row is held behind a fault. -/
  released : (∃ e, .error e ∈ answers) → m.buffered = 0

/-- A finished materializer answers that it is, whatever its signal. -/
theorem call_of_finished (h : m.finished = true) (raised : Bool) :
    m.call raised = (.ok none, m.signal raised) := by
  rw [call, if_pos h]

/-- An open materializer looks at its signal first. -/
theorem call_of_open (h : m.finished = false) (raised : Bool) :
    m.call raised = match m.cursor.check with
      | .error e => (.error e, (m.signal raised).abort)
      | .ok () => (m.signal raised).proceed := by
  rw [call, if_neg (Bool.eq_false_iff.1 h)]

namespace Played

/-- While a materializer is open, nothing that it answered was the last. -/
theorem not_ends (h : Played layout deliveries pageSize answers m) (hopen : m.finished = false) :
    ¬ Ends pageSize answers := fun hends => by
  rw [h.finished_iff.2 hends] at hopen
  cases hopen

/-- A call that proceeds has used whole groups so far. -/
theorem uses_of_open (h : Played layout deliveries pageSize answers m)
    (hopen : m.finished = false) : m.produced = (entriesOf answers).length ∧
      ∃ groups, groups.length = (entriesOf answers).length ∧ m.Uses layout deliveries groups :=
  h.uses fun e he => h.not_ends hopen (.inl ⟨e, he⟩)

/-- A page that has not ended is full if it has no room for any entry. -/
theorem isPageFull_iff (h : Played layout deliveries pageSize answers m)
    (hopen : m.finished = false) : m.isPageFull = true ↔ pageSize = some 0 := by
  rw [isPageFull, h.pageSize_eq, (h.uses_of_open hopen).1, Option.any_eq_true]
  constructor
  · rintro ⟨n, rfl, hle⟩
    rw [decide_eq_true_iff] at hle
    rcases n.eq_zero_or_pos with rfl | hpos
    · rfl
    · exact (h.not_ends hopen (.inr (.inr ⟨n, rfl, hpos, hle⟩))).elim
  · rintro rfl
    exact ⟨0, rfl, decide_eq_true (Nat.zero_le _)⟩

/-- A call answers with an entry or with none in what is left behind its first look, unless it has
ended before. -/
theorem proceed_of_call_ok (h : Played layout deliveries pageSize answers m)
    {answer : Option Entry} {raised : Bool} (hanswer : (m.call raised).1 = .ok answer) :
    answer = none ∧ Ends pageSize answers ∨
      m.finished = false ∧ (m.signal raised).proceed.1 = .ok answer := by
  cases hfinished : m.finished with
  | true =>
    rw [call_of_finished hfinished] at hanswer
    cases hanswer
    exact .inl ⟨rfl, h.finished_iff.1 hfinished⟩
  | false =>
    rw [call_of_open hfinished] at hanswer
    cases hcheck : m.cursor.check with
    | error e =>
      rw [hcheck] at hanswer
      cases hanswer
    | ok _ =>
      rw [hcheck] at hanswer
      exact .inr ⟨rfl, hanswer⟩

/-- **An entry is made of a whole group**, the next one that the rows have. -/
theorem whole (h : Played layout deliveries pageSize answers m) {raised : Bool} {entry : Entry}
    (hanswer : (m.call raised).1 = .ok (some entry)) :
    ∃ run, IsWhole layout deliveries (entriesOf answers).length run.rows ∧
      ShowsRows layout run entry := by
  rcases h.proceed_of_call_ok hanswer with ⟨hnone, -⟩ | ⟨hopen, hproceed⟩
  · cases hnone
  · obtain ⟨-, groups, hlength, huses⟩ := (h.signal raised).uses_of_open hopen
    have hproceeds := (m.signal raised).proceeds
    generalize (m.signal raised).proceed = result at hproceeds hproceed
    cases hproceeds with
    | @yielded group _ m' _ _ hgather hdeliver =>
      cases hproceed
      have hlayout : m'.layout = layout := (readsOn_of_gather hgather).layout.trans huses.layout_eq
      refine ⟨group.run, ?_, ?_⟩
      · rw [← hlength]
        exact (huses.of_gather_some hgather).2
      · rw [← hlayout]
        exact (completes_of_deliver hdeliver).shows
    | _ => cases hproceed

/-- The end is answered where a page is full or none is asked for, or all groups have been used. -/
theorem complete (h : Played layout deliveries pageSize answers m) {raised : Bool}
    (hanswer : (m.call raised).1 = .ok none) :
    Ends pageSize answers ∨ pageSize = some 0 ∨
      (layout.groups (readable deliveries)).length = (entriesOf answers).length ∧
        deliveries = (readable deliveries).map .row := by
  rcases h.proceed_of_call_ok hanswer with ⟨-, hends⟩ | ⟨hopen, hproceed⟩
  · exact .inl hends
  · obtain ⟨-, groups, hlength, huses⟩ := (h.signal raised).uses_of_open hopen
    have hproceeds := (m.signal raised).proceeds
    generalize (m.signal raised).proceed = result at hproceeds hproceed
    cases hproceeds with
    | pageFull hfull => exact .inr (.inl (((h.signal raised).isPageFull_iff hopen).1 hfull))
    | ended _ hgather =>
      obtain ⟨-, hgroups, hdeliveries⟩ := huses.of_gather_none hgather
      exact .inr (.inr ⟨by rw [hgroups, hlength], hdeliveries⟩)
    | _ => cases hproceed

/-- All of this holds behind every run. -/
theorem endsCleanly (h : Played layout deliveries pageSize answers m)
    (hwatching : m.cursor.watching = true) :
    EndsCleanly layout deliveries pageSize answers m where
  whole _ _ := h.whole
  complete _ := h.complete
  cancelled hcancelled hends raised := by
    have hopen : m.finished = false := Bool.eq_false_iff.2 fun hfinished =>
      hends (h.finished_iff.1 hfinished)
    rw [call_of_open hopen, Cursor.IsStopped.check_eq ⟨hwatching, hcancelled⟩]
  ended hends raised := by
    rw [call_of_finished (h.finished_iff.2 hends)]
    exact ⟨rfl, by cases raised <;> rfl⟩
  released herror := by
    rw [buffered, h.released herror]
    rfl

end Played

end Materializer

end QueryPlans
