import QueryPlans.Proofs.Outcome.Entries
import QueryPlans.Proofs.Outcome.Faults
import QueryPlans.Proofs.Page.Prefix
import QueryPlans.Proofs.Schedule.Entries

/-!
# Proofs/Schedule/Buffering — how many rows a materializer holds

The limit is looked at before a row joins its group, neither for the first row of a group nor for
the row that ends it.  So a group has as many rows as the limit allows, and one more row may be at
hand (`Materializer.Holds`).  A call fails by the limit exactly if the source delivers one row more
of the group than that (`Materializer.Exceeds`).  What was pulled are the rows of the groups that
were used, and the one that is held (`buffering_bounded`).
-/

namespace QueryPlans

/-! ## Rows that are delivered next -/

namespace Cursor

variable {c c' : Cursor} {row : Row} {rows : List Row} {answer : Option Row}

/-- **A source that delivers rows next**: there is no failure among them, and a cursor that is
watched does not see the signal before the last of them. -/
structure Delivers (c : Cursor) (rows : List Row) : Prop where
  pending : ∃ rest, c.pending = rows.map .row ++ rest
  quiet : rows ≠ [] → c.watching = true →
    c.cancelled = false ∧ ∀ k ∈ c.cancelOn, c.pulls < k → c.pulls + rows.length ≤ k

/-- A pull that brings an answer has passed the look at the signal. -/
theorem check_of_fetch (h : c.fetch = (.ok answer, c')) : c.check = .ok () := by
  cases hcheck : c.check with
  | ok _ => rfl
  | error e => simp [fetch, hcheck] at h

theorem check_eq_ok_iff : c.check = .ok () ↔ (c.watching = true → c.cancelled = false) := by
  rw [check]
  cases c.watching <;> cases c.cancelled <;> simp

/-- The next row of a delivery is the next one that is pulled. -/
theorem Delivers.fetch (h : c.Delivers (row :: rows)) (hends : c.EndsLast) :
    ∃ c', c.fetch = (.ok (some row), c') ∧ c'.Delivers rows := by
  obtain ⟨rest, hpending⟩ := h.pending
  have hquiet := h.quiet (List.cons_ne_nil _ _)
  have hcheck := check_eq_ok_iff.2 fun hwatching => (hquiet hwatching).1
  have hexhausted : c.exhausted = false := Bool.eq_false_iff.2 fun hend => by
    rw [hends hend] at hpending
    cases hpending
  rw [List.map_cons, List.cons_append] at hpending
  refine ⟨{ c.pulled with pending := rows.map .row ++ rest, fetched := c.fetched + 1 }, ?_,
    ⟨rest, rfl⟩, fun hne hwatching => ?_⟩
  · simp [Cursor.fetch, hcheck, hexhausted, hpending]
  · obtain ⟨hcancelled, hlater⟩ := hquiet hwatching
    have hpos := List.length_pos_of_ne_nil hne
    refine ⟨?_, fun k hk hlt => ?_⟩
    · simp only [pulled, hcancelled, Bool.false_or, beq_eq_false_iff_ne]
      intro hk
      have hle := hlater _ hk (Nat.lt_succ_self _)
      rw [List.length_cons] at hle
      omega
    · have hle := hlater k hk (Nat.lt_of_succ_lt hlt)
      rw [List.length_cons] at hle
      change c.pulls + 1 + rows.length ≤ k
      omega

/-- All rows of a delivery can be pulled one after the other. -/
theorem Delivers.pulls (h : c.Delivers rows) (hends : c.EndsLast) : ∃ c', c.Pulls rows c' := by
  induction rows generalizing c with
  | nil => exact ⟨c, .nil⟩
  | cons row rest ih =>
    obtain ⟨c', hfetch, hdelivers⟩ := h.fetch hends
    obtain ⟨c'', hpulls⟩ := ih hdelivers ((hasPulled_of_fetch hfetch).endsLast hends)
    exact ⟨c'', .cons hfetch hpulls⟩

/-- What was pulled was delivered, with no signal in between. -/
theorem Pulls.delivers (h : c.Pulls rows c') : c.Delivers rows := by
  induction h with
  | nil => exact ⟨⟨_, rfl⟩, fun hne => absurd rfl hne⟩
  | @cons c c₁ _ row rows hfetch _ ih =>
    obtain ⟨rest, hpending⟩ := ih.pending
    have hopen := check_eq_ok_iff.1 (check_of_fetch hfetch)
    refine ⟨⟨rest, ?_⟩, fun _ hwatching => ⟨hopen hwatching, fun k hk hlt => ?_⟩⟩
    · rw [pending_of_fetch hfetch, hpending]
      rfl
    · rw [List.length_cons]
      by_cases hne : rows = []
      · rw [hne]
        exact Nat.succ_le_of_lt hlt
      -- The first pull does not raise the signal, as there is another one behind it.
      · cases fetches hfetch with
        | pulled _ _ =>
          obtain ⟨hcancelled, hlater⟩ := ih.quiet hne hwatching
          have hother : c.pulls + 1 ≠ k := fun heq => by
            simp [Cursor.pulled, Option.mem_def.1 hk, ← heq] at hcancelled
          have hle := hlater k hk (Nat.lt_of_le_of_ne (Nat.succ_le_of_lt hlt) hother)
          change c.pulls + 1 + rows.length ≤ k at hle
          omega

end Cursor

/-! ## One row of a group -/

namespace RowGroup

variable {root : LevelInfo} {limit : Nat} {g g' : RowGroup} {row : Option Row} {rows : List Row}

/-- A group grows by the rows that continue it, up to its limit. -/
theorem size_of_continues (h : Cursor.Continues (step root limit) g rows g') :
    g'.size = g.size + rows.length ∧ g'.size ≤ max limit g.size := by
  induction h with
  | nil => exact ⟨rfl, Nat.le_max_right ..⟩
  | cons head _ ih =>
    cases steps head with
    | joined _ hroom =>
      simp only [List.length_cons] at ih ⊢
      omega

/-- **A group that is read**: it has room for its rows, and nothing is behind it yet. -/
structure IsReading (limit : Nat) (g : RowGroup) : Prop where
  size_le : g.size ≤ limit
  next_eq : g.next = none

/-- While a group is read, what is held is its rows. -/
theorem IsReading.held_eq (h : g.IsReading limit) : g.held = g.size := by
  rw [held, h.next_eq]
  rfl

/-- One more row is at hand at most. -/
theorem IsReading.step (h : g.IsReading limit) {verdict : Cursor.Verdict}
    (hstep : RowGroup.step root limit g row = (g', verdict)) :
    g'.held ≤ limit + 1 ∧ (verdict = .more → g'.IsReading limit) := by
  have hheld : g.held ≤ limit + 1 := h.held_eq.trans_le (Nat.le_succ_of_le h.size_le)
  cases steps hstep with
  | ended | unread | full => exact ⟨hheld, (by cases ·)⟩
  | other => exact ⟨Nat.succ_le_succ h.size_le, (by cases ·)⟩
  | @joined row _ hroom =>
    have hreading : IsReading limit { g with run := g.run.add row, size := g.size + 1 } :=
      ⟨hroom, h.next_eq⟩
    exact ⟨hreading.held_eq.trans_le (Nat.le_succ_of_le hroom), fun _ => hreading⟩

/-- Rows that continue a group keep it within its limit. -/
theorem IsReading.continues (h : g.IsReading limit)
    (hmore : Cursor.Continues (RowGroup.step root limit) g rows g') : g'.IsReading limit := by
  induction hmore with
  | nil => exact h
  | cons head _ ih => exact ih ((h.step head).2 rfl)

/-- **A scan holds one row more than the limit at most**, the one that it looks at. -/
theorem IsReading.scans (h : g.IsReading limit) {c : Cursor}
    {result : Except ReadError Unit × RowGroup × Cursor}
    (hscans : Cursor.Scans (RowGroup.step root limit) c g result) :
    result.2.1.held ≤ limit + 1 := by
  induction hscans with
  | fault => exact h.held_eq.trans_le (Nat.le_succ_of_le h.size_le)
  | fail _ hstep | done _ hstep => exact (h.step hstep).1
  | more _ hstep _ ih => exact ih ((h.step hstep).2 rfl)

theorem isReading_ofRow (first : Row) (hlimit : 1 ≤ limit) : (ofRow first).IsReading limit :=
  ⟨hlimit, rfl⟩

end RowGroup

namespace Materializer

variable {layout : Layout} {deliveries : List Delivery} {pageSize : Option Nat} {limit : Nat}
  {answers : List (Except ReadError (Option Entry))} {m m' : Materializer} {first : Row}
  {later : List Row}

/-! ## How many rows are held -/

/-- **A number of rows that are held** at some moment of a call: between calls, between two pulls of
a group, while a row is at hand that was just pulled, and once it has found its place. -/
inductive Holds (m : Materializer) : Nat → Prop
  | between : Holds m m.buffered
  | reading {first : Row} {m' : Materializer} {more : List Row} {c : Cursor} {g : RowGroup}
    (hfirst : m.firstRow = (.ok (some first), m')) (hpulls : m'.cursor.Pulls more c)
    (hmore : Cursor.Continues (RowGroup.step m.layout.root.info m.maxGroupRows) (.ofRow first)
      more g) : Holds m g.held
  | atHand {first row : Row} {m' : Materializer} {more : List Row} {c c' : Cursor} {g : RowGroup}
    (hfirst : m.firstRow = (.ok (some first), m')) (hpulls : m'.cursor.Pulls more c)
    (hmore : Cursor.Continues (RowGroup.step m.layout.root.info m.maxGroupRows) (.ofRow first)
      more g) (hfetch : c.fetch = (.ok (some row), c')) : Holds m (g.held + 1)
  | settled {first : Row} {m' : Materializer} {more : List Row} {c c' : Cursor} {g g' : RowGroup}
    {row : Option Row} {verdict : Cursor.Verdict} (hfirst : m.firstRow = (.ok (some first), m'))
    (hpulls : m'.cursor.Pulls more c)
    (hmore : Cursor.Continues (RowGroup.step m.layout.root.info m.maxGroupRows) (.ofRow first)
      more g) (hfetch : c.fetch = (.ok row, c'))
    (hstep : RowGroup.step m.layout.root.info m.maxGroupRows g row = (g', verdict)) :
    Holds m g'.held

/-- Between calls at most the row that begins the next group is held. -/
theorem buffered_le (m : Materializer) : m.buffered ≤ 1 := by
  rw [buffered]
  cases m.lookahead <;> simp

/-- **One row more than the limit** is held at most. -/
theorem Holds.le {n : Nat} (h : m.Holds n) (hlimit : 1 ≤ m.maxGroupRows) :
    n ≤ m.maxGroupRows + 1 := by
  cases h with
  | between => exact m.buffered_le.trans (Nat.le_succ_of_le hlimit)
  | @reading first _ _ _ _ _ _ hmore =>
    have hreading := (RowGroup.isReading_ofRow first hlimit).continues hmore
    exact hreading.held_eq.trans_le (Nat.le_succ_of_le hreading.size_le)
  | @atHand first _ _ _ _ _ _ _ _ hmore _ =>
    have hreading := (RowGroup.isReading_ofRow first hlimit).continues hmore
    exact Nat.succ_le_succ (hreading.held_eq.trans_le hreading.size_le)
  | @settled first _ _ _ _ _ _ _ _ _ _ hmore _ hstep =>
    exact (((RowGroup.isReading_ofRow first hlimit).continues hmore).step hstep).1

/-- **A materializer within its limit.** -/
structure IsWithin (limit : Nat) (m : Materializer) : Prop where
  limit_eq : m.maxGroupRows = limit
  highWater_le : m.highWater ≤ limit + 1

namespace IsWithin

/-- A signal reads nothing. -/
theorem signal (h : m.IsWithin limit) (raised : Bool) : (m.signal raised).IsWithin limit :=
  ⟨h.limit_eq, h.highWater_le⟩

/-- The row that a group begins with is held, or pulled. -/
theorem firstRow (h : m.IsWithin limit) {outcome : Except ReadError (Option Row)}
    (hfirst : m.firstRow = (outcome, m')) : m'.IsWithin limit := by
  rcases firstRow_cases hfirst with ⟨row, -, -, rfl⟩ | ⟨-, cursor, -, rfl⟩
  all_goals exact ⟨h.limit_eq, h.highWater_le⟩

/-- A group is read within the limit, and its size goes into the high-water mark. -/
theorem readGroup (h : m.IsWithin limit) (hlimit : 1 ≤ limit)
    {outcome : Except ReadError RowGroup} (hgroup : m.readGroup first = (outcome, m')) :
    m'.IsWithin limit := by
  obtain ⟨rfl, hle⟩ := h
  obtain rfl := congrArg Prod.snd hgroup
  rw [Materializer.readGroup]
  have hone : max m.highWater 1 ≤ m.maxGroupRows + 1 := by omega
  dsimp only
  split
  · exact ⟨rfl, hone⟩
  · exact ⟨rfl, hone⟩
  · have hscans := RowGroup.scans m.layout.root.info m.maxGroupRows m.cursor (.ofRow first)
    exact ⟨rfl, max_le hone ((RowGroup.isReading_ofRow first hlimit).scans hscans)⟩

/-- So is the group that a call gathers, if any. -/
theorem gather (h : m.IsWithin limit) (hlimit : 1 ≤ limit)
    {outcome : Except ReadError (Option RowGroup)} (hgather : m.gather = (outcome, m')) :
    m'.IsWithin limit := by
  cases gathers hgather with
  | unread hfirst | ended hfirst => exact h.firstRow hfirst
  | broken hfirst hgroup | gathered hfirst hgroup =>
    exact (h.firstRow hfirst).readGroup hlimit hgroup

/-- What follows the first look at the signal keeps within the limit. -/
theorem proceed (h : m.IsWithin limit) (hlimit : 1 ≤ limit) : m.proceed.2.IsWithin limit := by
  have hproceeds := m.proceeds
  generalize m.proceed = result at hproceeds ⊢
  cases hproceeds with
  | pageFull => exact ⟨h.limit_eq, h.highWater_le⟩
  | unread _ hgather | ended _ hgather =>
    have hgathered := h.gather hlimit hgather
    exact ⟨hgathered.limit_eq, hgathered.highWater_le⟩
  | unbuilt _ hgather hdeliver | yielded _ hgather hdeliver =>
    have hgathered := h.gather hlimit hgather
    obtain ⟨_, _, _, _, rfl⟩ := exists_eq_of_deliver hdeliver
    exact ⟨hgathered.limit_eq, hgathered.highWater_le⟩

/-- **One call keeps within the limit**, wherever a signal is raised. -/
theorem call (h : m.IsWithin limit) (hlimit : 1 ≤ limit) (raised : Bool) :
    (m.call raised).2.IsWithin limit := by
  rw [Materializer.call]
  split
  · exact h.signal raised
  · split
    · exact ⟨h.limit_eq, h.highWater_le⟩
    · exact (h.signal raised).proceed hlimit

/-- So does every run. -/
theorem of_plays {start : Materializer} (h : consumer.Plays start answers m)
    (hstart : start.IsWithin limit) (hlimit : 1 ≤ limit) : m.IsWithin limit :=
  (h.keeps (A := fun _ => True) hstart (fun _ raised _ hs => ⟨trivial, hs.call hlimit raised⟩)
    fun _ hs => hs.signal true).2

end IsWithin

/-! ## Groups that exceed the limit -/

/-- **Rows of one root entity that come next**: a row that is held is the first of them, and the
source delivers the others. -/
structure Faces (m : Materializer) (layout : Layout) (first : Row) (later : List Row) : Prop where
  rows : ∃ delivered, m.lookahead.toList ++ delivered = first :: later ∧ m.cursor.Delivers delivered
  present : layout.root.info.isPresent first = .ok true
  same : ∀ row ∈ later, layout.root.info.sameEntity first row = .ok true

/-- **A group that exceeds the limit** with the last of its rows that the source delivers. -/
def Exceeds (m : Materializer) (layout : Layout) (limit : Nat) : Prop :=
  ∃ first later, m.Faces layout first later ∧ later.length = limit

/-- A source does not look at the limit. -/
theorem fetch_ne_groupTooLarge {c c' : Cursor} {n : Nat} :
    c.fetch ≠ (.error (.groupTooLarge n), c') := fun h => by
  cases Cursor.fetches h with
  | refused hcheck =>
    rw [Cursor.check] at hcheck
    split at hcheck <;> cases hcheck

/-- What rows show has nothing to do with the limit. -/
theorem ne_groupTooLarge {α : Type} {x : Except ReadError α} {n : Nat}
    (h : OnlyFails (ReadError.IsOfRows (fun _ => True) fun _ => True) x) :
    x ≠ .error (.groupTooLarge n) := by
  rintro rfl
  cases h.of_error

/-- Reading a group pulls what is behind its first row. -/
theorem delivers_of_firstRow (hfirst : m.firstRow = (.ok (some first), m')) {cursor : Cursor}
    (hpulls : m'.cursor.Pulls later cursor) : ∃ delivered,
      m.lookahead.toList ++ delivered = first :: later ∧ m.cursor.Delivers delivered := by
  rcases firstRow_cases hfirst with ⟨row, hlookahead, hrow, rfl⟩ | ⟨hlookahead, c, hfetch, rfl⟩
  · cases hrow
    exact ⟨later, by rw [hlookahead]; rfl, hpulls.delivers⟩
  · exact ⟨first :: later, by rw [hlookahead]; rfl, (Cursor.Pulls.cons hfetch hpulls).delivers⟩

/-- The materializer takes the row that it faces, and the rest of the group can be pulled. -/
theorem Faces.firstRow (h : m.Faces layout first later) (hends : m.cursor.EndsLast) :
    ∃ cursor, m.firstRow = (.ok (some first), { m with lookahead := none, cursor }) ∧
      ∃ cursor', cursor.Pulls later cursor' := by
  obtain ⟨delivered, heq, hdelivers⟩ := h.rows
  cases hlookahead : m.lookahead with
  | some row =>
    rw [hlookahead] at heq
    obtain ⟨rfl, rfl⟩ := List.cons.inj heq
    exact ⟨m.cursor, by simp [Materializer.firstRow, hlookahead], hdelivers.pulls hends⟩
  | none =>
    rw [hlookahead] at heq
    obtain rfl : delivered = first :: later := heq
    obtain ⟨c, hfetch, hrest⟩ := hdelivers.fetch hends
    refine ⟨c, ?_, hrest.pulls ((Cursor.hasPulled_of_fetch hfetch).endsLast hends)⟩
    simp [Materializer.firstRow, hlookahead, hfetch]

/-- **A group that fails by the limit** has pulled as many rows behind its first one. -/
theorem of_readGroup_tooLarge {n : Nat} (hlimit : 1 ≤ m.maxGroupRows)
    (hgroup : m.readGroup first = (.error (.groupTooLarge n), m')) :
    n = m.maxGroupRows ∧ m.layout.root.info.isPresent first = .ok true ∧
      ∃ later cursor, m.cursor.Pulls later cursor ∧ later.length = m.maxGroupRows ∧
        ∀ row ∈ later, m.layout.root.info.sameEntity first row = .ok true := by
  rw [readGroup] at hgroup
  dsimp only at hgroup
  split at hgroup
  · next herror =>
    cases hgroup
    exact (ne_groupTooLarge (Row.onlyFails_anyPresent trivial fun _ _ => trivial) herror).elim
  · cases hgroup
  · next hpresent =>
    let step := RowGroup.step m.layout.root.info m.maxGroupRows
    have hscans := RowGroup.scans m.layout.root.info m.maxGroupRows m.cursor (.ofRow first)
    rcases hscan : m.cursor.scan step (.ofRow first) with ⟨e | ⟨⟩, g, cursor⟩
    · rw [hscan] at hgroup hscans
      cases hgroup
      obtain ⟨more, full, c, hmore, hpulls, hlast⟩ := hscans.of_error
      -- A pull does not fail by the limit, and neither does a comparison: the group was full.
      rcases hlast with hfetch | ⟨last, hfetch, hfail⟩
      · exact (fetch_ne_groupTooLarge hfetch).elim
      · cases RowGroup.steps hfail with
        | unread herror =>
          have hroot := m.layout.within_any.root.info
          exact (ne_groupTooLarge (hroot.onlyFails_sameEntity trivial trivial) herror).elim
        | @full row hsame hfull =>
          obtain ⟨hsize, hle⟩ := RowGroup.size_of_continues hmore
          have hextends := RowGroup.extends_of_continues hmore
          rw [hextends.first_eq] at hsame
          refine ⟨rfl, hpresent, more ++ [row], cursor, hpulls.append (.cons hfetch .nil), ?_,
            List.forall_mem_append.2 ⟨hextends.same, List.forall_mem_singleton.2 hsame⟩⟩
          have hone : (RowGroup.ofRow first).size = 1 := rfl
          rw [List.length_append, List.length_singleton]
          omega
    · rw [hscan] at hgroup
      cases hgroup

/-- **Gathering fails by the limit** exactly if the group exceeds it. -/
theorem gather_tooLarge_iff {n : Nat} (hlimit : 1 ≤ m.maxGroupRows) (hends : m.cursor.EndsLast) :
    m.gather.1 = .error (.groupTooLarge n) ↔
      n = m.maxGroupRows ∧ m.Exceeds m.layout m.maxGroupRows := by
  constructor
  · intro herror
    cases gathers (show m.gather = (.error (.groupTooLarge n), m.gather.2) from Prod.ext herror rfl)
      with
    | unread hfirst =>
      rcases firstRow_cases hfirst with ⟨row, -, hrow, -⟩ | ⟨-, cursor, hfetch, -⟩
      · cases hrow
      · exact (fetch_ne_groupTooLarge hfetch).elim
    | broken hfirst hgroup =>
      obtain ⟨cursor, lookahead, -, rfl⟩ := exists_eq_of_firstRow hfirst
      obtain ⟨heq, hpresent, later, _, hpulls, hlength, hsame⟩ :=
        of_readGroup_tooLarge (m := { m with cursor, lookahead }) hlimit hgroup
      exact ⟨heq, _, later, ⟨delivers_of_firstRow hfirst hpulls, hpresent, hsame⟩, hlength⟩
  · rintro ⟨rfl, first, later, hfaces, hlength⟩
    obtain ⟨cursor, hfirst, _, hpulls⟩ := hfaces.firstRow hends
    obtain ⟨m', hgroup⟩ := readGroup_of_tooLarge (m := { m with lookahead := none, cursor }) hpulls
      hfaces.present hfaces.same (by
        change max m.maxGroupRows 1 < later.length + 1
        omega)
    simp only [gather, hfirst, hgroup]

/-- A call fails by the limit only where it gathers. -/
theorem proceed_tooLarge_iff {n : Nat} :
    m.proceed.1 = .error (.groupTooLarge n) ↔
      m.isPageFull = false ∧ m.gather.1 = .error (.groupTooLarge n) := by
  have hproceeds := m.proceeds
  generalize m.proceed = result at hproceeds ⊢
  cases hproceeds with
  | pageFull hfull => simp [hfull]
  | unread hroom hgather | ended hroom hgather | yielded hroom hgather => simp [hroom, hgather]
  | @unbuilt group _ m' _ _ hgather hdeliver =>
    simp only [hgather, reduceCtorEq, and_false, iff_false]
    -- An entry that cannot be built is not a matter of the limit.
    rintro ⟨⟩
    have hrun : group.run.Of fun _ => True := fun _ _ => trivial
    have hdelivers := onlyFails_deliver m'.layout.within_any hrun
    exact (ne_groupTooLarge hdelivers (congrArg Prod.fst hdeliver)).elim

/-- What exceeds the limit is not all held, so the signal has not been raised yet. -/
theorem Exceeds.check_eq (h : m.Exceeds layout limit) (hlimit : 1 ≤ limit) :
    m.cursor.check = .ok () := by
  obtain ⟨first, later, hfaces, rfl⟩ := h
  obtain ⟨delivered, heq, hdelivers⟩ := hfaces.rows
  have hne : delivered ≠ [] := by
    rintro rfl
    have hlength := congrArg List.length heq
    have hheld : m.lookahead.toList.length ≤ 1 := m.buffered_le
    rw [List.append_nil, List.length_cons] at hlength
    omega
  exact Cursor.check_eq_ok_iff.2 fun hwatching => (hdelivers.quiet hne hwatching).1

/-- A look that is passed behind a signal is passed without it. -/
theorem check_of_signal {raised : Bool} (h : (m.signal raised).cursor.check = .ok ()) :
    m.cursor.check = .ok () := by
  rw [Cursor.check_eq_ok_iff] at h ⊢
  cases raised with
  | false => exact h
  | true => exact fun hwatching => nomatch h hwatching

/-- **A materializer whose buffer is bounded**, whatever was done so far. -/
structure IsBounded (layout : Layout) (deliveries : List Delivery) (limit : Nat)
    (pageSize : Option Nat) (answers : List (Except ReadError (Option Entry))) (m : Materializer) :
    Prop where
  /-- A call fails by the limit exactly if it reads a group that exceeds it. -/
  tooLarge_iff : ∀ raised n, (m.call raised).1 = .error (.groupTooLarge n) ↔
    n = limit ∧ ¬ Ends pageSize answers ∧ pageSize ≠ some 0 ∧ (m.signal raised).Exceeds layout limit
  /-- At no time of a call is more held than one row beyond the limit. -/
  held_le : ∀ raised n, (m.signal raised).Holds n → n ≤ limit + 1
  highWater_le : m.highWater ≤ limit + 1
  buffered_le : m.buffered ≤ 1
  /-- What was pulled was used for entries, or is held. -/
  fetched_eq : (∀ e, .error e ∉ answers) →
    m.cursor.fetched = layout.extent (readable deliveries) (entriesOf answers).length + m.buffered

namespace Played

/-- A call fails by the limit where it reads a group that exceeds it. -/
theorem tooLarge_iff (h : Played layout deliveries pageSize answers m) (hwithin : m.IsWithin limit)
    (hlimit : 1 ≤ limit) (raised : Bool) (n : Nat) :
    (m.call raised).1 = .error (.groupTooLarge n) ↔
      n = limit ∧ ¬ Ends pageSize answers ∧ pageSize ≠ some 0 ∧
        (m.signal raised).Exceeds layout limit := by
  cases hfinished : m.finished with
  | true => simp [call_of_finished hfinished, h.finished_iff.1 hfinished]
  | false =>
    obtain ⟨-, groups, -, huses⟩ := (h.signal raised).uses_of_open hfinished
    have hgather := gather_tooLarge_iff (n := n) ((hwithin.signal raised).limit_eq ▸ hlimit)
      huses.endsLast
    rw [(hwithin.signal raised).limit_eq, huses.layout_eq] at hgather
    have hproceed : (m.signal raised).proceed.1 = .error (.groupTooLarge n) ↔
        n = limit ∧ ¬ Ends pageSize answers ∧ pageSize ≠ some 0 ∧
          (m.signal raised).Exceeds layout limit := by
      rw [proceed_tooLarge_iff, hgather, ← Bool.not_eq_true,
        (h.signal raised).isPageFull_iff hfinished, iff_true_intro (h.not_ends hfinished)]
      tauto
    rw [← hproceed, call_of_open hfinished]
    -- A call that fails at its look fails for the signal, and a group that exceeds the limit has
    -- not been cut short by one.
    cases hcheck : m.cursor.check with
    | ok _ => rfl
    | error e =>
      refine iff_of_false (fun herror => ?_) fun hfail => ?_
      · rw [Cursor.check] at hcheck
        split at hcheck <;> cases hcheck
        cases herror
      · have hok := check_of_signal ((hproceed.1 hfail).2.2.2.check_eq hlimit)
        cases hcheck.symm.trans hok

/-- The state after a run has all bounds. -/
theorem isBounded (h : Played layout deliveries pageSize answers m) (hwithin : m.IsWithin limit)
    (hlimit : 1 ≤ limit) : IsBounded layout deliveries limit pageSize answers m where
  tooLarge_iff := h.tooLarge_iff hwithin hlimit
  held_le raised _ hholds := by
    have hle := hholds.le ((hwithin.signal raised).limit_eq ▸ hlimit)
    rwa [(hwithin.signal raised).limit_eq] at hle
  highWater_le := hwithin.highWater_le
  buffered_le := m.buffered_le
  fetched_eq hno := by
    obtain ⟨-, groups, hlength, huses⟩ := h.uses hno
    rw [← hlength, huses.extent_eq, huses.fetched_eq, buffered]

end Played

/-- **Buffering is bounded, and the limit is exact.**  Over whatever a source delivers, with the
signal raised at any time and with or without a page size, a call fails by the limit exactly if the
source delivers one row more of its group than the limit allows, without a fault and before the
signal is seen.  No more rows than that are ever held, and between calls there is one at most; as
long as no call has failed, it is the only one pulled that no entry was made from. -/
theorem buffering_bounded (layout : Layout) (deliveries : List Delivery) (cancelOn : Option Nat)
    (watching : Bool) (limit : Nat) (hlimit : 1 ≤ limit) (pageSize : Option Nat)
    (answers : List (Except ReadError (Option Entry))) (m : Materializer)
    (hplays : consumer.Plays
      { ofCursor layout { Cursor.ofDeliveries deliveries with cancelOn, watching } limit with
        pageSize }
      answers m) :
    IsBounded layout deliveries limit pageSize answers m := by
  have hplayed : Played layout deliveries pageSize answers m :=
    (played_ofCursor layout { Cursor.ofDeliveries deliveries with cancelOn, watching } rfl rfl limit
      pageSize).of_plays hplays
  have hwithin : m.IsWithin limit := .of_plays hplays ⟨rfl, Nat.zero_le _⟩ hlimit
  exact hplayed.isBounded hwithin hlimit

/-- The first order has three rows.  With a limit of two it fails at the third, although its pull
raises the signal; where the second pull does so, the third row is not delivered.  With a limit of
three the order is built, and the row behind it is held. -/
theorem buffering_bounded_orders :
    let start (limit k : Nat) := ofCursor .orders (Consumer.watched Delivery.orders (some k)) limit
    (start 2 3).next.1 = .error (.groupTooLarge 2) ∧
      (∀ n, (start 2 2).next.1 ≠ .error (.groupTooLarge n)) ∧
      (start 3 4).next.2.highWater ≤ 4 ∧
      (start 3 4).next.2.cursor.fetched = 3 + (start 3 4).next.2.buffered := by
  intro start
  have hempty : ¬ Ends none [] := by simp [Ends]
  have hbounded (limit k : Nat) (hlimit : 1 ≤ limit)
      {answers : List (Except ReadError (Option Entry))} {m : Materializer}
      (hplays : consumer.Plays (start limit k) answers m) :
      IsBounded .orders Delivery.orders limit none answers m :=
    buffering_bounded .orders Delivery.orders (some k) true limit hlimit none answers m hplays
  refine ⟨?_, fun n => ?_, ?_⟩
  · rw [← call_false]
    have hdelivers : (start 2 3).cursor.Delivers [⟨[.int 1, .int 7, .int 1]⟩,
        ⟨[.int 1, .int 7, .int 2]⟩, ⟨[.int 1, .int 7, .null]⟩] :=
      ⟨⟨_, rfl⟩, fun _ _ => ⟨rfl, fun k hk _ => (Option.some.inj hk).le⟩⟩
    have hsame : ∀ row ∈ [(⟨[.int 1, .int 7, .int 2]⟩ : Row), ⟨[.int 1, .int 7, .null]⟩],
        Layout.orders.root.info.sameEntity ⟨[.int 1, .int 7, .int 1]⟩ row = .ok true := by
      rw [List.forall_mem_cons, List.forall_mem_singleton]
      exact ⟨rfl, rfl⟩
    exact ((hbounded 2 3 (by decide) .nil).tooLarge_iff false 2).2
      ⟨rfl, hempty, (Option.some_ne_none 0).symm, _, _, ⟨⟨_, rfl, hdelivers⟩, rfl, hsame⟩, rfl⟩
  · rw [← call_false]
    intro herror
    obtain ⟨-, -, -, first, later, hfaces, hlength⟩ :=
      ((hbounded 2 2 (by decide) .nil).tooLarge_iff false n).1 herror
    obtain ⟨_, rfl, hdelivers⟩ := hfaces.rows
    have hle := (hdelivers.quiet (List.cons_ne_nil _ _) rfl).2 2 rfl Nat.two_pos
    rw [List.length_cons, hlength] at hle
    exact absurd hle (by decide)
  · obtain ⟨entry, hentry⟩ : ∃ entry, (start 3 4).next.1 = .ok (some entry) := ⟨_, rfl⟩
    have hcall : consumer.call () false (start 3 4) = (start 3 4).next := (start 3 4).call_false
    have hplays : consumer.Plays (start 3 4) [.ok (some entry)] (start 3 4).next.2 := by
      have hplays := consumer.plays_call (start 3 4) () false
      rwa [hcall, hentry] at hplays
    have hrest := hbounded 3 4 (by decide) hplays
    exact ⟨hrest.highWater_le, hrest.fetched_eq (by simp)⟩

end Materializer

end QueryPlans
