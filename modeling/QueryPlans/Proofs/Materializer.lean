import QueryPlans.Materializer
import QueryPlans.Proofs.Cursor
import QueryPlans.Proofs.Except

/-!
# Proofs/Materializer — one group after the other

Between calls a materializer has pulled one row more than it has used, or none (`Awaits`).  A call
uses the rows of one group: the first of those it awaits and all behind it that show the same root
entity.  It gives what is built from them and awaits the rest (`next_of_group`).
-/

namespace QueryPlans

theorem Run.rows_add (run : Run) (row : Row) : (run.add row).rows = run.rows ++ [row] := by
  simp [add, rows]

namespace RowGroup

/-- Rows of the same root entity are added as long as the limit allows. -/
theorem continues_of_same {root : LevelInfo} {limit : Nat} {rows : List Row} (g : RowGroup)
    (hsame : ∀ row ∈ rows, root.sameEntity g.run.first row = .ok true)
    (hlimit : g.size + rows.length ≤ max limit g.size) :
    Cursor.Continues (step root limit) g rows
      ⟨⟨g.run.first, rows.reverse ++ g.run.laterReversed⟩, g.size + rows.length, g.next⟩ := by
  induction rows generalizing g with
  | nil => exact .nil
  | cons row rest ih =>
    rw [List.forall_mem_cons] at hsame
    rw [List.length_cons] at hlimit ⊢
    have hstep : step root limit g (some row) =
        ({ g with run := g.run.add row, size := g.size + 1 }, .more) := by
      simp only [step, hsame.1]
      rw [if_neg (by omega)]
    have hrest := ih { g with run := g.run.add row, size := g.size + 1 } hsame.2 (by
      change g.size + 1 + rest.length ≤ max limit (g.size + 1)
      omega)
    refine .cons hstep ?_
    rw [List.reverse_cons, List.append_assoc, Nat.add_comm rest.length, ← Nat.add_assoc]
    exact hrest

/-- A group is done at the end of rows. -/
theorem scans (root : LevelInfo) (limit : Nat) (c : Cursor) (g : RowGroup) :
    Cursor.Scans (step root limit) c g (c.scan (step root limit) g) :=
  Cursor.scans_scan (fun _ => Cursor.Verdict.noConfusion) c g

/-- A row of another root entity ends the group. -/
theorem step_of_other {root : LevelInfo} {limit : Nat} {row : Row} (g : RowGroup)
    (h : root.sameEntity g.run.first row = .ok false) :
    step root limit g (some row) = ({ g with next := some row }, .done) := by
  simp only [step, h]

/-- A group to which rows were added. -/
structure Extends (root : LevelInfo) (g : RowGroup) (rows : List Row) (g' : RowGroup) : Prop where
  first_eq : g'.run.first = g.run.first
  rows_eq : g'.run.rows = g.run.rows ++ rows
  next_eq : g'.next = g.next
  same : ∀ row ∈ rows, root.sameEntity g.run.first row = .ok true

/-- **What a group makes of a row**, or of the end of rows. -/
inductive Steps (root : LevelInfo) (limit : Nat) (g : RowGroup) :
    Option Row → RowGroup × Cursor.Verdict → Prop
  | ended : Steps root limit g none (g, .done)
  | unread {row : Row} {e : ReadError} (h : root.sameEntity g.run.first row = .error e) :
    Steps root limit g (some row) (g, .fail e)
  | other {row : Row} (h : root.sameEntity g.run.first row = .ok false) :
    Steps root limit g (some row) ({ g with next := some row }, .done)
  | full {row : Row} (h : root.sameEntity g.run.first row = .ok true) (hfull : limit ≤ g.size) :
    Steps root limit g (some row) (g, .fail (.groupTooLarge limit))
  | joined {row : Row} (h : root.sameEntity g.run.first row = .ok true) (hroom : g.size < limit) :
    Steps root limit g (some row) ({ g with run := g.run.add row, size := g.size + 1 }, .more)

/-- A step of a group takes a row, leaves one, finds the end, or fails. -/
theorem steps {root : LevelInfo} {limit : Nat} {g : RowGroup} {row : Option Row}
    {result : RowGroup × Cursor.Verdict} (h : step root limit g row = result) :
    Steps root limit g row result := by
  subst h
  cases row with
  | none => exact .ended
  | some row =>
    rw [step]
    split
    · next h => exact .unread h
    · next h => exact .other h
    · next h =>
      split
      · next hfull => exact .full h hfull
      · next hroom => exact .joined h (Nat.lt_of_not_le hroom)

/-- Rows on which a group asks for more were added to it. -/
theorem extends_of_continues {root : LevelInfo} {limit : Nat} {g g' : RowGroup} {rows : List Row}
    (h : Cursor.Continues (step root limit) g rows g') : Extends root g rows g' := by
  induction h with
  | nil => exact ⟨rfl, (List.append_nil _).symm, rfl, by simp⟩
  | cons head _ ih =>
    cases steps head with
    | joined hsame =>
      refine ⟨ih.first_eq, ?_, ih.next_eq, List.forall_mem_cons.2 ⟨hsame, ih.same⟩⟩
      rw [ih.rows_eq, Run.rows_add, List.append_assoc]
      rfl

/-- A group is complete at the end of rows, or at a row of another root entity. -/
theorem step_done {root : LevelInfo} {limit : Nat} {g g' : RowGroup} {last : Option Row}
    (hnext : g.next = none) (h : step root limit g last = (g', .done)) :
    g'.run = g.run ∧ g'.next = last ∧
      ∀ row ∈ last, root.sameEntity g.run.first row = .ok false := by
  cases steps h with
  | ended => exact ⟨rfl, hnext, by simp⟩
  | other hother => exact ⟨rfl, rfl, by simpa using hother⟩

end RowGroup

namespace Materializer

/-- **What a materializer yields** until it is at an end or fails. -/
inductive Drains : Materializer → List Entry → Option ReadError → Prop
  | done {m m' : Materializer} (h : m.next = (.ok none, m')) : Drains m [] none
  | failed {m m' : Materializer} {e : ReadError} (h : m.next = (.error e, m')) :
    Drains m [] (some e)
  | entry {m m' : Materializer} {entry : Entry} {rest : List Entry} {fault : Option ReadError}
    (h : m.next = (.ok (some entry), m')) (tail : Drains m' rest fault) :
    Drains m (entry :: rest) fault

theorem Drains.of_fst_none {m : Materializer} (h : m.next.1 = .ok none) : m.Drains [] none :=
  .done (Prod.ext h rfl)

theorem Drains.of_fst_some {m : Materializer} {entry : Entry} {rest : List Entry}
    {fault : Option ReadError} (h : m.next.1 = .ok (some entry))
    (tail : m.next.2.Drains rest fault) : m.Drains (entry :: rest) fault :=
  .entry (Prod.ext h rfl) tail

/-- A materializer without page size that has not come to its end. -/
structure IsOpen (m : Materializer) (layout : Layout) (limit : Nat) : Prop where
  layout : m.layout = layout
  limit : m.maxGroupRows = limit
  pageSize : m.pageSize = none
  finished : m.finished = false

/-- **A materializer that is going to read rows**, the first of which it may have pulled already. -/
structure Awaits (m : Materializer) (layout : Layout) (limit : Nat) (rows : List Row) : Prop where
  isOpen : m.IsOpen layout limit
  serves : ∃ rest, rows = m.lookahead.toList ++ rest ∧ m.cursor.Serves rest

variable {layout : Layout} {limit : Nat} {m : Materializer} {first : Row}
  {rows later tail : List Row}

theorem awaits_ofCursor {cursor : Cursor} (h : cursor.Serves rows) :
    (ofCursor layout cursor limit).Awaits layout limit rows :=
  ⟨⟨rfl, rfl, rfl, rfl⟩, rows, rfl, h⟩

theorem IsOpen.isPageFull_eq (h : m.IsOpen layout limit) : m.isPageFull = false := by
  rw [isPageFull, h.pageSize]
  rfl

/-- A materializer that awaits rows has no signal to heed. -/
theorem Awaits.check_eq (h : m.Awaits layout limit rows) : m.cursor.check = .ok () := by
  obtain ⟨rest, -, hserves⟩ := h.serves
  exact hserves.check_eq

/-- The row that a group begins with is the next one. -/
theorem Awaits.firstRow_cons (h : m.Awaits layout limit (first :: rows)) :
    ∃ m', m.firstRow = (.ok (some first), m') ∧ m'.IsOpen layout limit ∧ m'.cursor.Serves rows := by
  obtain ⟨⟨hlayout, hlimit, hsize, hfinished⟩, rest, hrows, hserves⟩ := h
  cases hlookahead : m.lookahead with
  | some row =>
    rw [hlookahead] at hrows
    obtain ⟨rfl, rfl⟩ := List.cons.inj hrows
    exact ⟨{ m with lookahead := none }, by simp [firstRow, hlookahead],
      ⟨hlayout, hlimit, hsize, hfinished⟩, hserves⟩
  | none =>
    rw [hlookahead] at hrows
    obtain rfl : first :: rows = rest := hrows
    obtain ⟨cursor, hfetch, hrest⟩ := hserves.fetch_cons
    exact ⟨{ m with cursor }, by simp [firstRow, hlookahead, hfetch],
      ⟨hlayout, hlimit, hsize, hfinished⟩, hrest⟩

theorem Awaits.firstRow_nil (h : m.Awaits layout limit []) :
    ∃ m', m.firstRow = (.ok none, m') := by
  obtain ⟨-, rest, hrows, hserves⟩ := h
  obtain ⟨hlookahead, rfl⟩ := List.append_eq_nil_iff.1 hrows.symm
  obtain ⟨cursor, hfetch, -⟩ := hserves.fetch_nil
  refine ⟨{ m with cursor }, ?_⟩
  cases hrow : m.lookahead with
  | some row => simp [hrow] at hlookahead
  | none => simp [firstRow, hrow, hfetch]

/-- A group ends with the rows or where another root entity begins. -/
theorem IsOpen.readGroup_eq (h : m.IsOpen layout limit) (hserves : m.cursor.Serves (later ++ tail))
    (hpresent : layout.root.info.isPresent first = .ok true)
    (hsame : ∀ row ∈ later, layout.root.info.sameEntity first row = .ok true)
    (hother : ∀ row ∈ tail.head?, layout.root.info.sameEntity first row = .ok false)
    (hlimit : later.length + 1 ≤ max limit 1) :
    ∃ g m', m.readGroup first = (.ok g, m') ∧ g.run = ⟨first, later.reverse⟩ ∧
      g.next = tail.head? ∧ m'.IsOpen layout limit ∧ m'.cursor.Serves tail.tail := by
  obtain ⟨rfl, rfl, hsize, hfinished⟩ := h
  have hcontinues := RowGroup.continues_of_same (.ofRow first) hsame (by
    change 1 + later.length ≤ max m.maxGroupRows 1
    omega)
  let step := RowGroup.step m.layout.root.info m.maxGroupRows
  have hscan : ∃ g c, m.cursor.scan step (.ofRow first) = (.ok (), g, c) ∧
      g.run = ⟨first, later.reverse⟩ ∧ g.next = tail.head? ∧ c.Serves tail.tail := by
    cases tail with
    | nil =>
      rw [List.append_nil] at hserves
      obtain ⟨c, hscan, hrest⟩ := hserves.scan_end hcontinues rfl
      exact ⟨_, c, hscan, congrArg (Run.mk first) (List.append_nil _), rfl, hrest⟩
    | cons row rest =>
      obtain ⟨c, hscan, hrest⟩ := hserves.scan_row hcontinues
        (RowGroup.step_of_other _ (hother row rfl))
      exact ⟨_, c, hscan, congrArg (Run.mk first) (List.append_nil _), rfl, hrest⟩
  obtain ⟨g, c, hscan, hrun, hnext, hrest⟩ := hscan
  refine ⟨g, { m with cursor := c, highWater := max (max m.highWater 1) g.held }, ?_, hrun, hnext,
    ⟨rfl, rfl, hsize, hfinished⟩, hrest⟩
  simp only [readGroup, hpresent]
  rw [show m.cursor.scan (RowGroup.step _ _) _ = _ from hscan]
  rfl

/-- A group that can be built is delivered, and the row behind it is held. -/
theorem IsOpen.deliver_eq (h : m.IsOpen layout limit) {g : RowGroup} {entry : Entry}
    (hbuild : layout.root.build g.run = .ok entry) :
    m.deliver g = (.ok entry, { m with produced := m.produced + 1, lookahead := g.next }) := by
  obtain ⟨rfl, rfl, hsize, hfinished⟩ := h
  simp [deliver, hbuild, isPageFull, hsize]

/-- **A call uses the rows of one group** and awaits those behind it. -/
theorem Awaits.next_of_group (h : m.Awaits layout limit (first :: (later ++ tail)))
    (hpresent : layout.root.info.isPresent first = .ok true)
    (hsame : ∀ row ∈ later, layout.root.info.sameEntity first row = .ok true)
    (hother : ∀ row ∈ tail.head?, layout.root.info.sameEntity first row = .ok false)
    (hlimit : later.length + 1 ≤ max limit 1) {entry : Entry}
    (hbuild : layout.root.build ⟨first, later.reverse⟩ = .ok entry) :
    ∃ m', m.next = (.ok (some entry), m') ∧ m'.Awaits layout limit tail := by
  obtain ⟨m₁, hfirst, hopen₁, hserves₁⟩ := h.firstRow_cons
  obtain ⟨g, m₂, hgroup, hrun, hnext, hopen₂, hserves₂⟩ :=
    hopen₁.readGroup_eq hserves₁ hpresent hsame hother hlimit
  rw [← hrun] at hbuild
  have hdeliver := hopen₂.deliver_eq hbuild
  refine ⟨{ m₂ with produced := m₂.produced + 1, lookahead := g.next }, ?_,
    ⟨hopen₂.layout, hopen₂.limit, hopen₂.pageSize, hopen₂.finished⟩, tail.tail, ?_, hserves₂⟩
  · simp only [next, advance, h.isOpen.finished, h.check_eq, h.isOpen.isPageFull_eq, hfirst, hgroup,
      hdeliver]
    rfl
  · change tail = g.next.toList ++ tail.tail
    rw [hnext]
    cases tail <;> rfl

/-- Without rows there is no entry. -/
theorem Awaits.next_of_nil (h : m.Awaits layout limit []) : ∃ m', m.next = (.ok none, m') := by
  obtain ⟨m', hfirst⟩ := h.firstRow_nil
  refine ⟨{ m' with finished := true }, ?_⟩
  simp only [next, advance, h.isOpen.finished, h.check_eq, h.isOpen.isPageFull_eq, hfirst]
  rfl

/-! ## What a call has used -/

variable {m' : Materializer} {entry : Entry}

/-- **The group of a call that succeeds.** -/
structure UsedGroup (layout : Layout) (rows : List Row) (run : Run) (tail : List Row) : Prop where
  rows_eq : rows = run.rows ++ tail
  present : layout.root.info.isPresent run.first = .ok true
  same : ∀ row ∈ run.rows.tail, layout.root.info.sameEntity run.first row = .ok true
  other : ∀ row ∈ tail.head?, layout.root.info.sameEntity run.first row = .ok false

/-- **A group that was read** is the rows of one entity, and the row behind it is held. -/
theorem IsOpen.of_readGroup (h : m.IsOpen layout limit) (hserves : m.cursor.Serves rows)
    {g : RowGroup} (hgroup : m.readGroup first = (.ok g, m')) :
    ∃ tail, UsedGroup layout (first :: rows) g.run tail ∧ g.next = tail.head? ∧
      m'.IsOpen layout limit ∧ m'.cursor.Serves tail.tail := by
  obtain ⟨rfl, rfl, hsize, hfinished⟩ := h
  rw [readGroup] at hgroup
  dsimp only at hgroup
  split at hgroup
  · cases hgroup
  · cases hgroup
  · next hpresent =>
    let step := RowGroup.step m.layout.root.info m.maxGroupRows
    rcases hscan : m.cursor.scan step (.ofRow first) with ⟨outcome | ⟨⟩, group, cursor⟩
    · rw [hscan] at hgroup
      cases hgroup
    · rw [hscan] at hgroup
      cases hgroup
      have hscans := RowGroup.scans m.layout.root.info m.maxGroupRows m.cursor (.ofRow first)
      rw [hscan] at hscans
      -- The last row that was pulled, if any, is of another entity: it is not in the group, but
      -- held.
      obtain ⟨more, g', last, rest, rfl, hmore, hdone, hend, hrest⟩ := hserves.of_scans hscans
      have hextends := RowGroup.extends_of_continues hmore
      obtain ⟨hrun, hnext, hother⟩ := RowGroup.step_done hextends.next_eq hdone
      have hfirst : group.run.first = first := by
        rw [hrun, hextends.first_eq]
        rfl
      have hrows : group.run.rows = first :: more := by
        rw [hrun, hextends.rows_eq]
        rfl
      refine ⟨last.toList ++ rest, ⟨?_, hfirst ▸ hpresent, ?_, ?_⟩, ?_,
        ⟨rfl, rfl, hsize, hfinished⟩, ?_⟩
      · rw [hrows, List.cons_append, List.append_assoc]
      · rw [hrows, hfirst]
        exact hextends.same
      · cases last with
        | none => simp [hend rfl]
        | some row => simpa [hrun] using hother
      · cases last with
        | none => simp [hnext, hend rfl]
        | some row => simpa using hnext
      · cases last with
        | none => simpa [hend rfl] using hrest
        | some row => simpa using hrest

/-- An entry that was delivered was built of its group. -/
theorem IsOpen.of_deliver (h : m.IsOpen layout limit) {g : RowGroup}
    (hdeliver : m.deliver g = (.ok entry, m')) :
    layout.root.build g.run = .ok entry ∧
      m' = { m with produced := m.produced + 1, lookahead := g.next } := by
  cases hbuild : layout.root.build g.run with
  | error e =>
    obtain ⟨rfl, -, -, -⟩ := h
    simp only [deliver, hbuild] at hdeliver
    cases hdeliver
  | ok built =>
    rw [h.deliver_eq hbuild] at hdeliver
    cases hdeliver
    exact ⟨rfl, rfl⟩

/-- **A call that yields an entry** has built it from the first group of the rows it awaited. -/
theorem Awaits.of_next_some (h : m.Awaits layout limit rows)
    (hnext : m.next = (.ok (some entry), m')) :
    ∃ run tail, UsedGroup layout rows run tail ∧ layout.root.build run = .ok entry ∧
      m'.Awaits layout limit tail := by
  cases rows with
  | nil =>
    obtain ⟨m'', hnone⟩ := h.next_of_nil
    cases hnext.symm.trans hnone
  | cons first rows =>
    obtain ⟨m₁, hfirst, hopen₁, hserves₁⟩ := h.firstRow_cons
    simp only [next, advance, h.isOpen.finished, h.check_eq, h.isOpen.isPageFull_eq, hfirst]
      at hnext
    rcases hgroup : m₁.readGroup first with ⟨e | g, m₂⟩
    · simp [hgroup] at hnext
    · obtain ⟨tail, hused, hhead, hopen₂, hserves₂⟩ := hopen₁.of_readGroup hserves₁ hgroup
      rcases hdeliver : m₂.deliver g with ⟨e | built, m₃⟩
      · simp [hgroup, hdeliver, Except.map] at hnext
      · obtain ⟨hbuild, rfl⟩ := hopen₂.of_deliver hdeliver
        simp [hgroup, hdeliver, Except.map] at hnext
        obtain ⟨rfl, rfl⟩ := hnext
        refine ⟨g.run, tail, hused, hbuild,
          ⟨hopen₂.layout, hopen₂.limit, hopen₂.pageSize, hopen₂.finished⟩, tail.tail, ?_, hserves₂⟩
        change tail = g.next.toList ++ tail.tail
        rw [hhead]
        cases tail <;> rfl

/-- A call that comes to an end has used all rows. -/
theorem Awaits.of_next_none (h : m.Awaits layout limit rows) (hnext : m.next = (.ok none, m')) :
    rows = [] := by
  cases rows with
  | nil => rfl
  | cons first rows =>
    obtain ⟨m₁, hfirst, hopen₁, hserves₁⟩ := h.firstRow_cons
    simp only [next, advance, h.isOpen.finished, h.check_eq, h.isOpen.isPageFull_eq, hfirst]
      at hnext
    rcases hgroup : m₁.readGroup first with ⟨e | g, m₂⟩
    · simp [hgroup] at hnext
    · rcases hdeliver : m₂.deliver g with ⟨e | built, m₃⟩ <;>
        simp [hgroup, hdeliver, Except.map] at hnext

end Materializer

end QueryPlans
