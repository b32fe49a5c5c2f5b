import QueryPlans.Proofs.Page.Groups

/-!
# Proofs/Outcome/Entries — each call answers for one group

On rows that are wide enough a call depends on nothing but its group: it fails where the group has
no root entity or more rows than the limit allows, and otherwise gives what is built from the group
(`Layout.entryOf`).  So the answers are those of the groups one after the other, up to the first
that fails (`Materializer.Awaits.answer_eq`).
-/

namespace QueryPlans

/-! ## Answers one after the other -/

section

variable {ε α : Type} {outcomes later : List (Except ε α)} {n : Nat}

/-- **The answer with a number**: outcomes up to the first that fails, and nothing behind. -/
def answerAt : List (Except ε α) → Nat → Except ε (Option α)
  | [], _ => .ok none
  | .error e :: _, 0 => .error e
  | .error _ :: _, _ + 1 => .ok none
  | .ok a :: _, 0 => .ok (some a)
  | .ok _ :: rest, i + 1 => answerAt rest i

/-- Outcomes none of which fails are followed by those behind them. -/
theorem answerAt_append (hall : ∀ i < n, ∃ a, answerAt outcomes i = .ok (some a))
    (hend : answerAt outcomes n = .ok none) :
    (∀ i < n, answerAt (outcomes ++ later) i = answerAt outcomes i) ∧
      ∀ j, answerAt (outcomes ++ later) (n + j) = answerAt later j := by
  -- On the first outcomes, all of which are entries: a fault among them would have ended the
  -- answers.
  induction outcomes generalizing n with
  | nil =>
    obtain rfl : n = 0 := by
      by_contra hne
      obtain ⟨a, ha⟩ := hall 0 (Nat.pos_of_ne_zero hne)
      cases ha
    exact ⟨nofun, fun j => by rw [Nat.zero_add, List.nil_append]⟩
  | cons outcome rest ih =>
    cases outcome with
    | error e =>
      cases n with
      | zero => cases hend
      | succ n =>
        obtain ⟨a, ha⟩ := hall 0 n.succ_pos
        cases ha
    | ok a =>
      cases n with
      | zero => cases hend
      | succ n =>
        obtain ⟨hbefore, hbehind⟩ := ih (fun i hi => hall (i + 1) (Nat.succ_lt_succ hi)) hend
        refine ⟨fun i hi => ?_, fun j => ?_⟩
        · cases i with
          | zero => rfl
          | succ i => exact hbefore i (Nat.lt_of_succ_lt_succ hi)
        · rw [Nat.succ_add]
          exact hbehind j

end

/-! ## Groups -/

/-- **What a group of rows comes to.** -/
def Layout.entryOf (layout : Layout) (limit : Nat) : List Row → Except ReadError Entry
  | [] => .error .rootAbsent
  | first :: later =>
    if layout.root.info.isPresentIn first.toCells = false then .error .rootAbsent
    else if max limit 1 < (first :: later).length then .error (.groupTooLarge limit)
    else layout.root.build ⟨first, later.reverse⟩

namespace Layout

variable {layout : Layout} {a b : Row} {rows : List Row}

theorem ShowsLevels.isPresent_eq (h : layout.ShowsLevels rows) (hwf : layout.root.WellFormed)
    (ha : a ∈ rows) :
    layout.root.info.isPresent a = .ok (layout.root.info.isPresentIn a.toCells) :=
  hwf.owns.isPresent_toCells (h a ha)

/-- On rows that show the levels, the root is compared by its cells. -/
theorem ShowsLevels.sameEntity_eq (h : layout.ShowsLevels rows) (hwf : layout.root.WellFormed)
    (ha : a ∈ rows) (hb : b ∈ rows) :
    layout.root.info.sameEntity a b = .ok (layout.root.info.isSame a.toCells b.toCells) :=
  hwf.owns.sameEntity_toCells (h a ha) (h b hb)

/-- Rows begin with a group. -/
theorem exists_group (layout : Layout) (first : Row) (rows : List Row) :
    ∃ later tail, rows = later ++ tail ∧
      (∀ row ∈ later, layout.root.info.isSame first.toCells row.toCells = true) ∧
      (∀ row ∈ tail.head?, layout.root.info.isSame first.toCells row.toCells = false) ∧
      layout.groups (first :: rows) = (first :: later) :: layout.groups tail :=
  exists_first_group (List.forall_mem_nil _) rows

end Layout

/-! ## Calls -/

namespace Materializer

variable {layout : Layout} {limit : Nat} {m : Materializer} {first : Row}
  {rows later tail : List Row}

/-- Calls are counted from the front. -/
theorem after_succ (m : Materializer) (k : Nat) : m.after (k + 1) = m.next.2.after k := by
  induction k with
  | zero => rfl
  | succ k ih => rw [after, ih, after]

theorem answer_succ (m : Materializer) (i : Nat) : m.answer (i + 1) = m.next.2.answer i := by
  rw [answer, answer, after_succ]

theorem Awaits.isDue (h : m.Awaits layout limit rows) : m.IsDue :=
  ⟨h.isOpen.finished, h.check_eq, h.isOpen.isPageFull_eq⟩

/-- A call whose group cannot be read fails. -/
theorem Awaits.next_of_broken (h : m.Awaits layout limit rows) {m₁ m' : Materializer}
    {e : ReadError} (hfirst : m.firstRow = (.ok (some first), m₁))
    (hgroup : m₁.readGroup first = (.error e, m')) : m.next = (.error e, m'.abort) :=
  (Calls.unread h.isDue (by simp only [gather, hfirst, hgroup])).next_eq

/-- **A row without the root** where a group begins is an error. -/
theorem Awaits.next_of_absent (h : m.Awaits layout limit (first :: rows))
    (habsent : layout.root.info.isPresent first = .ok false) : m.next.1 = .error .rootAbsent := by
  obtain ⟨m₁, hfirst, hopen, -⟩ := h.firstRow_cons
  have hgroup : m₁.readGroup first =
      (.error .rootAbsent, { m₁ with highWater := max m₁.highWater 1 }) := by
    simp only [readGroup, hopen.layout, habsent]
  rw [h.next_of_broken hfirst hgroup]

/-- A group that is full fails at the next row of its entity. -/
theorem readGroup_of_tooLarge {cursor : Cursor} (hpulls : m.cursor.Pulls later cursor)
    (hpresent : m.layout.root.info.isPresent first = .ok true)
    (hsame : ∀ row ∈ later, m.layout.root.info.sameEntity first row = .ok true)
    (hlimit : max m.maxGroupRows 1 < later.length + 1) :
    ∃ m', m.readGroup first = (.error (.groupTooLarge m.maxGroupRows), m') := by
  -- The group is full before its last row: the next one is too many, whatever comes behind it.
  obtain ⟨full, row, rest, rfl, hfull⟩ : ∃ full row rest,
      later = full ++ [row] ++ rest ∧ full.length + 1 = max m.maxGroupRows 1 := by
    have hlt : max m.maxGroupRows 1 - 1 < later.length := by omega
    refine ⟨later.take (max m.maxGroupRows 1 - 1), later[max m.maxGroupRows 1 - 1],
      later.drop (max m.maxGroupRows 1 - 1 + 1), ?_, ?_⟩
    · rw [List.append_assoc, List.singleton_append, ← List.drop_eq_getElem_cons hlt,
        List.take_append_drop]
    · rw [List.length_take]
      omega
  obtain ⟨cursor', hpulls', -⟩ := hpulls.of_append
  simp only [List.forall_mem_append, List.forall_mem_singleton] at hsame
  let step := RowGroup.step m.layout.root.info m.maxGroupRows
  let g : RowGroup := ⟨⟨first, full.reverse ++ []⟩, 1 + full.length, none⟩
  have hmore : Cursor.Continues step (.ofRow first) full g :=
    RowGroup.continues_of_same (.ofRow first) hsame.1.1 (by
      change 1 + full.length ≤ max m.maxGroupRows 1
      omega)
  have hfail : step g (some row) = (g, .fail (.groupTooLarge m.maxGroupRows)) := by
    have hsize : m.maxGroupRows ≤ g.size := by
      change m.maxGroupRows ≤ 1 + full.length
      omega
    simp only [step, RowGroup.step, g, hsame.1.2]
    exact if_pos hsize
  have hscan := hpulls'.scan_fail hmore hfail
  refine ⟨{ m with cursor := cursor', highWater := max (max m.highWater 1) g.held }, ?_⟩
  simp only [readGroup, hpresent]
  rw [show m.cursor.scan (RowGroup.step _ _) _ = _ from hscan]
  rfl

section

variable (h : m.Awaits layout limit (first :: (later ++ tail)))
  (hpresent : layout.root.info.isPresent first = .ok true)
  (hsame : ∀ row ∈ later, layout.root.info.sameEntity first row = .ok true)

include h hpresent hsame

/-- **A group beyond the limit** is an error. -/
theorem Awaits.next_of_tooLarge (htoo : max limit 1 < later.length + 1) :
    m.next.1 = .error (.groupTooLarge limit) := by
  obtain ⟨m₁, hfirst, ⟨rfl, rfl, -, -⟩, hserves⟩ := h.firstRow_cons
  obtain ⟨cursor, hpulls, -⟩ := hserves.pulls
  obtain ⟨m', hgroup⟩ := readGroup_of_tooLarge hpulls hpresent hsame htoo
  rw [h.next_of_broken hfirst hgroup]

/-- A group that cannot be built fails as it does when built alone. -/
theorem Awaits.next_of_unbuilt
    (hother : ∀ row ∈ tail.head?, layout.root.info.sameEntity first row = .ok false)
    (hlimit : later.length + 1 ≤ max limit 1) {e : ReadError}
    (hbuild : layout.root.build ⟨first, later.reverse⟩ = .error e) : m.next.1 = .error e := by
  obtain ⟨m₁, hfirst, hopen, hserves⟩ := h.firstRow_cons
  obtain ⟨g, m₂, hgroup, hrun, -, hopen₂, -⟩ :=
    hopen.readGroup_eq hserves hpresent hsame hother hlimit
  have hgather : m.gather = (.ok (some g), m₂) := by simp only [gather, hfirst, hgroup]
  have hdeliver : m₂.deliver g = (.error e, m₂) :=
    deliver_of_error (by rw [hopen₂.layout, hrun, hbuild])
  rw [(Calls.unbuilt h.isDue hgather hdeliver).next_eq]

end

/-- **A call answers what its group comes to**, and goes on behind it. -/
theorem Awaits.next_eq (h : m.Awaits layout limit (first :: (later ++ tail)))
    (hwf : layout.root.WellFormed) (hshows : layout.ShowsLevels (first :: (later ++ tail)))
    (hsame : ∀ row ∈ later, layout.root.info.isSame first.toCells row.toCells = true)
    (hother : ∀ row ∈ tail.head?, layout.root.info.isSame first.toCells row.toCells = false) :
    m.next.1 = (layout.entryOf limit (first :: later)).map some ∧
      ∀ entry, layout.entryOf limit (first :: later) = .ok entry →
        m.next.2.Awaits layout limit tail := by
  have hfirst : first ∈ first :: (later ++ tail) := List.mem_cons_self
  have hpresent := hshows.isPresent_eq hwf hfirst
  have hsame' : ∀ row ∈ later, layout.root.info.sameEntity first row = .ok true :=
    fun row hrow => by
      rw [hshows.sameEntity_eq hwf hfirst (List.mem_cons_of_mem _ (List.mem_append_left _ hrow)),
        hsame row hrow]
  have hother' : ∀ row ∈ tail.head?, layout.root.info.sameEntity first row = .ok false :=
    fun row hrow => by
      rw [hshows.sameEntity_eq hwf hfirst (List.mem_cons_of_mem _ (List.mem_append_right _
        (List.mem_of_mem_head? hrow))), hother row hrow]
  rw [Layout.entryOf]
  -- The three faults of a group, in the order in which a call finds them, and then its entry.
  split_ifs with habsent htoo
  · rw [habsent] at hpresent
    rw [h.next_of_absent hpresent]
    exact ⟨rfl, by rintro _ ⟨⟩⟩
  · rw [Bool.not_eq_false] at habsent
    rw [habsent] at hpresent
    rw [h.next_of_tooLarge hpresent hsame' htoo]
    exact ⟨rfl, by rintro _ ⟨⟩⟩
  · rw [Bool.not_eq_false] at habsent
    rw [habsent] at hpresent
    have hlimit : later.length + 1 ≤ max limit 1 := Nat.le_of_not_lt htoo
    cases hbuild : layout.root.build ⟨first, later.reverse⟩ with
    | ok entry =>
      obtain ⟨m', hnext, hawaits⟩ := h.next_of_group hpresent hsame' hother' hlimit hbuild
      rw [hnext]
      exact ⟨rfl, fun _ _ => hawaits⟩
    | error e =>
      rw [h.next_of_unbuilt hpresent hsame' hother' hlimit hbuild]
      exact ⟨rfl, by rintro _ ⟨⟩⟩

/-- **The answers are what the groups come to**, up to the first that fails. -/
theorem Awaits.answer_eq (h : m.Awaits layout limit rows) (hwf : layout.root.WellFormed)
    (hshows : layout.ShowsLevels rows) (i : Nat) :
    m.answer i = answerAt ((layout.groups rows).map (layout.entryOf limit)) i := by
  induction i generalizing m rows with
  | zero =>
    cases rows with
    | nil =>
      obtain ⟨m', hnext⟩ := h.next_of_nil
      exact congrArg Prod.fst hnext
    | cons first rows =>
      obtain ⟨later, tail, rfl, hsame, hother, hgroups⟩ := layout.exists_group first rows
      rw [hgroups, List.map_cons]
      refine (h.next_eq hwf hshows hsame hother).1.trans ?_
      cases layout.entryOf limit (first :: later) <;> rfl
  | succ i ih =>
    cases rows with
    | nil =>
      obtain ⟨m', hnext⟩ := h.next_of_nil
      refine answer_of_lt (i := 0) (fun entry hentry => ?_) i.succ_pos
      cases (congrArg Prod.fst hnext).symm.trans hentry
    | cons first rows =>
      obtain ⟨later, tail, rfl, hsame, hother, hgroups⟩ := layout.exists_group first rows
      obtain ⟨hanswer, hawaits⟩ := h.next_eq hwf hshows hsame hother
      rw [hgroups, List.map_cons]
      cases hentry : layout.entryOf limit (first :: later) with
      | error e =>
        rw [hentry] at hanswer
        refine answer_of_lt (i := 0) (fun entry hentry => ?_) i.succ_pos
        cases hanswer.symm.trans hentry
      | ok entry =>
        rw [answer_succ]
        refine ih (hawaits entry hentry) fun row hrow => hshows row ?_
        exact List.mem_cons_of_mem _ (List.mem_append_right _ hrow)

/-- **Each call answers for one group**, up to the first that is at fault. -/
theorem answer_ofDeliveries (hwf : layout.root.WellFormed) (hshows : layout.ShowsLevels rows)
    (i : Nat) : (ofCursor layout (.ofDeliveries (rows.map .row)) limit).answer i =
      answerAt ((layout.groups rows).map (layout.entryOf limit)) i :=
  (awaits_ofCursor (Cursor.serves_ofDeliveries rows)).answer_eq hwf hshows i

end Materializer

end QueryPlans
