import QueryPlans.Materializer

/-!
# Proofs/Page/Calls — one call after the other

A call that is due gathers the rows of a group (`gather`) and delivers its entry; `Calls` lists all
that a call can come to.  A call that yields no entry is the last that does anything: it leaves the
materializer finished, and a finished one stays as it is and answers with none (`answer_of_lt`).
-/

namespace QueryPlans

namespace Materializer

/-- The materializer after a number of calls. -/
def after (m : Materializer) : Nat → Materializer
  | 0 => m
  | k + 1 => (m.after k).next.2

/-- The answer to a call; the calls are counted from zero. -/
def answer (m : Materializer) (i : Nat) : Except ReadError (Option Entry) := (m.after i).next.1

/-- Reads the next group of rows, if there is one. -/
def gather (m : Materializer) : Except ReadError (Option RowGroup) × Materializer :=
  match m.firstRow with
  | (.error e, m) => (.error e, m)
  | (.ok none, m) => (.ok none, m)
  | (.ok (some first), m) =>
    match m.readGroup first with
    | (.error e, m) => (.error e, m)
    | (.ok group, m) => (.ok (some group), m)

/-- What gathering comes to. -/
inductive Gathers (m : Materializer) : Except ReadError (Option RowGroup) × Materializer → Prop
  | unread {e : ReadError} {m' : Materializer} (hfirst : m.firstRow = (.error e, m')) :
    Gathers m (.error e, m')
  | ended {m' : Materializer} (hfirst : m.firstRow = (.ok none, m')) : Gathers m (.ok none, m')
  | broken {first : Row} {e : ReadError} {m' m'' : Materializer}
    (hfirst : m.firstRow = (.ok (some first), m'))
    (hgroup : m'.readGroup first = (.error e, m'')) : Gathers m (.error e, m'')
  | gathered {first : Row} {group : RowGroup} {m' m'' : Materializer}
    (hfirst : m.firstRow = (.ok (some first), m'))
    (hgroup : m'.readGroup first = (.ok group, m'')) : Gathers m (.ok (some group), m'')

/-- A call gathers nothing, fails, or gathers a group. -/
theorem gathers {m : Materializer} {result : Except ReadError (Option RowGroup) × Materializer}
    (h : m.gather = result) : m.Gathers result := by
  rw [← h, gather]
  rcases hfirst : m.firstRow with ⟨e | _ | first, m'⟩
  · exact .unread hfirst
  · exact .ended hfirst
  · dsimp only
    rcases hgroup : m'.readGroup first with ⟨e | group, m''⟩
    · exact .broken hfirst hgroup
    · exact .gathered hfirst hgroup

/-- A materializer that is going to read rows. -/
structure IsDue (m : Materializer) : Prop where
  finished : m.finished = false
  check : m.cursor.check = .ok ()
  room : m.isPageFull = false

/-- **What a call comes to**: an answer and the materializer that it leaves. -/
inductive Calls (m : Materializer) : Except ReadError (Option Entry) × Materializer → Prop
  | idle (h : m.finished = true) : Calls m (.ok none, m)
  | cancelled {e : ReadError} (hopen : m.finished = false) (h : m.cursor.check = .error e) :
    Calls m (.error e, m.abort)
  | pageFull (hopen : m.finished = false) (hcheck : m.cursor.check = .ok ())
    (h : m.isPageFull = true) : Calls m (.ok none, { m with finished := true })
  | unread {e : ReadError} {m' : Materializer} (due : m.IsDue) (h : m.gather = (.error e, m')) :
    Calls m (.error e, m'.abort)
  | ended {m' : Materializer} (due : m.IsDue) (h : m.gather = (.ok none, m')) :
    Calls m (.ok none, { m' with finished := true })
  | unbuilt {group : RowGroup} {e : ReadError} {m' m'' : Materializer} (due : m.IsDue)
    (h : m.gather = (.ok (some group), m')) (hdeliver : m'.deliver group = (.error e, m'')) :
    Calls m (.error e, m''.abort)
  | yielded {group : RowGroup} {entry : Entry} {m' m'' : Materializer} (due : m.IsDue)
    (h : m.gather = (.ok (some group), m')) (hdeliver : m'.deliver group = (.ok entry, m'')) :
    Calls m (.ok (some entry), m'')

variable {m m' : Materializer} {result : Except ReadError (Option Entry) × Materializer}

/-- A call that is due gathers and delivers. -/
theorem IsDue.advance_eq (h : m.IsDue) :
    m.advance =
      match m.gather with
      | (.error e, m') => (.error e, m')
      | (.ok none, m') => (.ok none, { m' with finished := true })
      | (.ok (some group), m') => ((m'.deliver group).1.map some, (m'.deliver group).2) := by
  simp only [advance, h.finished, h.check, h.room, gather, Bool.false_eq_true, if_false]
  rcases m.firstRow with ⟨e | _ | first, m₁⟩
  · rfl
  · rfl
  · dsimp only
    rcases m₁.readGroup first with ⟨e | group, m₂⟩ <;> rfl

/-- **A call comes to one of these.** -/
theorem calls (m : Materializer) : m.Calls m.next := by
  cases hfinished : m.finished with
  | true =>
    have hnext : m.next = (.ok none, m) := by simp [next, advance, hfinished]
    exact hnext ▸ .idle hfinished
  | false =>
    cases hcheck : m.cursor.check with
    | error e =>
      have hnext : m.next = (.error e, m.abort) := by simp [next, advance, hfinished, hcheck]
      exact hnext ▸ .cancelled hfinished hcheck
    | ok _ =>
      cases hroom : m.isPageFull with
      | true =>
        have hnext : m.next = (.ok none, { m with finished := true }) := by
          simp [next, advance, hfinished, hcheck, hroom]
        exact hnext ▸ .pageFull hfinished hcheck hroom
      | false =>
        have due : m.IsDue := ⟨hfinished, hcheck, hroom⟩
        rw [next, due.advance_eq]
        rcases hgather : m.gather with ⟨e | _ | group, m'⟩
        · exact .unread due hgather
        · exact .ended due hgather
        · dsimp only
          rcases hdeliver : m'.deliver group with ⟨e | entry, m''⟩
          · exact .unbuilt due hgather hdeliver
          · exact .yielded due hgather hdeliver

/-- A call comes to nothing else. -/
theorem Calls.next_eq (h : m.Calls result) : m.next = result := by
  cases h with
  | idle h => simp [next, advance, h]
  | cancelled hopen h => simp [next, advance, hopen, h]
  | pageFull hopen hcheck h => simp [next, advance, hopen, hcheck, h]
  | unread due h => simp [next, due.advance_eq, h]
  | ended due h => simp [next, due.advance_eq, h]
  | unbuilt due h hdeliver => simp [next, due.advance_eq, h, hdeliver, Except.map]
  | yielded due h hdeliver => simp [next, due.advance_eq, h, hdeliver, Except.map]

/-! ## What stays the same -/

/-- Materializers that differ in nothing but what they have read. -/
structure ReadsOn (m m' : Materializer) : Prop where
  layout : m'.layout = m.layout
  pageSize : m'.pageSize = m.pageSize
  produced : m'.produced = m.produced
  continuation : m'.continuation = m.continuation

/-- Reading on is reading on from where one is. -/
theorem ReadsOn.trans {m'' : Materializer} (h : m.ReadsOn m') (h' : m'.ReadsOn m'') :
    m.ReadsOn m'' :=
  ⟨h'.layout.trans h.layout, h'.pageSize.trans h.pageSize, h'.produced.trans h.produced,
    h'.continuation.trans h.continuation⟩

/-- Taking the first row of a group only reads on. -/
theorem readsOn_of_firstRow {outcome : Except ReadError (Option Row)}
    (h : m.firstRow = (outcome, m')) : m.ReadsOn m' := by
  obtain rfl := congrArg Prod.snd h
  rw [firstRow]
  split <;> exact ⟨rfl, rfl, rfl, rfl⟩

/-- So does reading the rest of it. -/
theorem readsOn_of_readGroup {first : Row} {outcome : Except ReadError RowGroup}
    (h : m.readGroup first = (outcome, m')) : m.ReadsOn m' := by
  obtain rfl := congrArg Prod.snd h
  rw [readGroup]
  dsimp only
  split <;> exact ⟨rfl, rfl, rfl, rfl⟩

/-- Gathering is a matter of reading. -/
theorem readsOn_of_gather {outcome : Except ReadError (Option RowGroup)}
    (h : m.gather = (outcome, m')) : m.ReadsOn m' := by
  cases gathers h with
  | unread hfirst | ended hfirst => exact readsOn_of_firstRow hfirst
  | broken hfirst hgroup | gathered hfirst hgroup =>
    exact (readsOn_of_firstRow hfirst).trans (readsOn_of_readGroup hgroup)

/-- A materializer that has not filled its page goes on after an entry. -/
theorem deliver_of_room {group : RowGroup} {entry : Entry}
    (hroom : ∀ size ∈ m.pageSize, m.produced + 1 < size)
    (hbuild : m.layout.root.build group.run = .ok entry) :
    m.deliver group =
      (.ok entry, { m with produced := m.produced + 1, lookahead := group.next }) := by
  rw [deliver, hbuild]
  cases hsize : m.pageSize with
  | none => simp [isPageFull]
  | some size =>
    have hlt := hroom size hsize
    simp [isPageFull, Nat.not_le.2 hlt]

/-- A group that cannot be built counts for nothing. -/
theorem deliver_of_error {group : RowGroup} {e : ReadError}
    (hbuild : m.layout.root.build group.run = .error e) : m.deliver group = (.error e, m) := by
  rw [deliver, hbuild]

/-! ## The last call -/

/-- **A call that yields no entry** finishes the materializer. -/
theorem Calls.finished_of_not_some (h : m.Calls result)
    (hnone : ∀ entry, result.1 ≠ .ok (some entry)) : result.2.finished = true := by
  cases h with
  | idle h => exact h
  | cancelled | pageFull | unread | ended | unbuilt => rfl
  | yielded => exact absurd rfl (hnone _)

theorem next_of_finished (h : m.finished = true) : m.next = (.ok none, m) := (Calls.idle h).next_eq

/-- A finished materializer stays as it is. -/
theorem after_of_finished {i k : Nat} (h : (m.after k).finished = true) (hle : k ≤ i) :
    m.after i = m.after k := by
  induction hle with
  | refl => rfl
  | step _ ih => rw [after, ih, next_of_finished h]

/-- A finished materializer has nothing to answer any more. -/
theorem answer_of_finished {i k : Nat} (h : (m.after k).finished = true) (hle : k ≤ i) :
    m.answer i = .ok none := by
  rw [answer, after_of_finished h hle, next_of_finished h]

/-- **Behind an answer that is no entry** there is nothing more. -/
theorem answer_of_lt {i j : Nat} (h : ∀ entry, m.answer i ≠ .ok (some entry)) (hlt : i < j) :
    m.answer j = .ok none :=
  answer_of_finished (k := i + 1) ((m.after i).calls.finished_of_not_some h) hlt

end Materializer

end QueryPlans
