import QueryPlans.Proofs.Page.Prefix
import QueryPlans.Proofs.Schedule.Entries

/-!
# Proofs/Schedule/Counting — how many entries a materializer says that it has produced

An entry is counted as soon as it is built, which for the last entry of a page is before the
continuation is read.  A call that cannot read the continuation breaks off with its entry counted
(`Materializer.BreaksOff`), and the count is one ahead of the entries from then on.  Every other
call counts just what it answers (`Materializer.CallCounts`).
-/

namespace QueryPlans

/-! ## Columns that cannot be read -/

/-- **Rows that lack a column**: one of them is too narrow for it, and all behind it are null in
it. -/
def Lacks (rows : List Row) (column : Nat) : Prop :=
  ∃ before row after, rows = before ++ row :: after ∧ row.width ≤ column ∧
    ∀ later ∈ after, later.get? column = some .null

section

variable {rows : List Row} {row : Row} {column : Nat}

/-- A column is lacking where a row is too narrow for it. -/
theorem Lacks.exists_width_le (h : Lacks rows column) : ∃ row ∈ rows, row.width ≤ column := by
  obtain ⟨before, row, after, rfl, hwidth, -⟩ := h
  exact ⟨row, List.mem_append_right _ List.mem_cons_self, hwidth⟩

/-- Values are sought from the last row on: a narrow row matters if all behind it are null. -/
theorem lacks_concat : Lacks (rows ++ [row]) column ↔
    row.width ≤ column ∨ row.get? column = some .null ∧ Lacks rows column := by
  constructor
  · rintro ⟨before, narrow, after, heq, hwidth, hnull⟩
    rcases after.eq_nil_or_concat with rfl | ⟨between, last, rfl⟩
    · obtain ⟨-, hrow⟩ := List.append_inj' heq rfl
      cases hrow
      exact .inl hwidth
    · rw [List.concat_eq_append] at heq hnull
      rw [← List.cons_append, ← List.append_assoc] at heq
      obtain ⟨rfl, hrow⟩ := List.append_inj' heq rfl
      cases hrow
      rw [List.forall_mem_append, List.forall_mem_singleton] at hnull
      exact .inr ⟨hnull.2, before, narrow, between, rfl, hwidth, hnull.1⟩
  · rintro (hwidth | ⟨hnull, before, narrow, after, rfl, hwidth, hafter⟩)
    · exact ⟨rows, row, [], rfl, hwidth, nofun⟩
    · refine ⟨before, narrow, after ++ [row], by simp, hwidth, ?_⟩
      exact List.forall_mem_append.2 ⟨hafter, List.forall_mem_singleton.2 hnull⟩

/-- The search for the last value that is not null looks at the last row first. -/
theorem lastPresent_concat (column : Nat) (rows : List Row) (row : Row) :
    lastPresent column (rows ++ [row]) = do
      let v ← row.column column
      if v.isNull then lastPresent column rows else return v := by
  rw [lastPresent, List.reverse_append]
  rfl

/-- A column cannot be read off rows that lack it, and only off these. -/
theorem exists_lastPresent_error :
    (∃ e, lastPresent column rows = .error e) ↔ Lacks rows column := by
  induction rows using List.reverseRecOn with
  | nil =>
    refine iff_of_false (fun ⟨e, h⟩ => by cases h) fun h => ?_
    obtain ⟨row, hrow, -⟩ := h.exists_width_le
    cases hrow
  | append_singleton rows row ih =>
    rw [lastPresent_concat, lacks_concat, Row.column]
    cases hget : row.get? column with
    | none =>
      exact iff_of_true ⟨_, rfl⟩ (.inl (List.getElem?_eq_none_iff.1 hget))
    | some v =>
      have hwidth : ¬ row.width ≤ column := fun hle => by
        cases hget.symm.trans (List.getElem?_eq_none_iff.2 hle)
      cases v <;> simp_all [Scalar.isNull]

/-- The values of a continuation cannot be read off rows that lack one of its columns. -/
theorem exists_continueAfter_error {columns : List ContinuationColumn} {entry : Entry} :
    (∃ e, continueAfter rows columns entry = .error e) ↔
      ∃ column ∈ columns, Lacks rows column.column := by
  induction columns generalizing entry with
  | nil => exact iff_of_false (fun ⟨e, h⟩ => by cases h) (by simp)
  | cons column rest ih =>
    rw [continueAfter, List.exists_mem_cons_iff, ← exists_lastPresent_error]
    cases lastPresent column.column rows with
    | error e => simp
    | ok v =>
      have hrest := @ih (entry.setPath v column.path)
      rw [ok_bind, ← hrest]
      rcases continueAfter rows rest (entry.setPath v column.path) with e | ⟨values, written⟩ <;>
        simp

end

/-! ## One call -/

namespace Materializer

variable {m m' start : Materializer} {group : RowGroup} {run : Run} {raised : Bool}
  {answers later : List (Except ReadError (Option Entry))}

/-- **A group that a page cannot end with**: its entry fills the page, and its rows lack a column of
the continuation. -/
structure Strands (m : Materializer) (run : Run) : Prop where
  builds : ∃ entry, m.layout.root.build run = .ok entry
  fills : m.pageSize = some (m.produced + 1)
  lacks : ∃ column ∈ m.layout.continuation, Lacks run.rows column.column

/-- **A call that breaks off** with its entry built, as it gathers a group that the page cannot end
with. -/
structure BreaksOff (m : Materializer) (raised : Bool) : Prop where
  due : m.IsDue
  strands : ∃ group m', (m.signal raised).gather = (.ok (some group), m') ∧ m.Strands group.run

/-- One more entry fills a page that has room. -/
theorem isPageFull_iff_of_room (hroom : m.isPageFull = false) (lookahead : Option Row) :
    { m with produced := m.produced + 1, lookahead }.isPageFull = true ↔
      m.pageSize = some (m.produced + 1) := by
  cases hsize : m.pageSize with
  | none => simp [isPageFull]
  | some n =>
    simp only [isPageFull, hsize, Option.any_some, decide_eq_false_iff_not, decide_eq_true_iff,
      Option.some_inj] at hroom ⊢
    omega

/-- Delivering counts the entry, unless it cannot be built, and fails behind that if the page cannot
end with the group. -/
theorem produced_of_deliver (hroom : m.isPageFull = false) {outcome : Except ReadError Entry}
    (h : m.deliver group = (outcome, m')) :
    m.Strands group.run ∧ (∃ e, outcome = .error e) ∧ m'.produced = m.produced + 1 ∨
      ¬ m.Strands group.run ∧ m'.produced = m.produced + outcome.toOption.toList.length := by
  rw [deliver] at h
  cases hbuild : m.layout.root.build group.run with
  | error e =>
    rw [hbuild] at h
    cases h
    refine .inr ⟨fun hstrands => ?_, rfl⟩
    obtain ⟨entry, hentry⟩ := hstrands.builds
    cases hbuild.symm.trans hentry
  | ok entry =>
    have hfull := isPageFull_iff_of_room hroom group.next
    have hlacks : (∃ e, continueAfter group.run.rows m.layout.continuation entry = .error e) ↔ _ :=
      exists_continueAfter_error
    rw [hbuild] at h
    dsimp only at h
    by_cases hfills : m.pageSize = some (m.produced + 1)
    · rw [if_pos (hfull.2 hfills)] at h
      cases hcontinue : continueAfter group.run.rows m.layout.continuation entry with
      | error e =>
        rw [hcontinue] at h
        cases h
        exact .inl ⟨⟨⟨entry, hbuild⟩, hfills, hlacks.1 ⟨e, hcontinue⟩⟩, ⟨e, rfl⟩, rfl⟩
      | ok result =>
        rw [hcontinue] at h
        cases h
        refine .inr ⟨fun hstrands => ?_, rfl⟩
        obtain ⟨e, he⟩ := hlacks.2 hstrands.lacks
        cases hcontinue.symm.trans he
    · rw [if_neg (mt hfull.1 hfills)] at h
      cases h
      exact .inr ⟨fun hstrands => hfills hstrands.fills, rfl⟩

/-- **What a call does to the count**: it counts what it answers, and one more if it breaks off. -/
inductive CallCounts (m : Materializer) (raised : Bool) :
    Except ReadError (Option Entry) × Materializer → Prop
  | brokenOff {e : ReadError} {m' : Materializer} (h : m.BreaksOff raised)
    (produced : m'.produced = m.produced + 1) (finished : m'.finished = true) :
    CallCounts m raised (.error e, m')
  | counted {answer : Except ReadError (Option Entry)} {m' : Materializer}
    (h : ¬ m.BreaksOff raised)
    (produced : m'.produced = m.produced + (entriesOf [answer]).length) :
    CallCounts m raised (answer, m')

/-- A call that gathers a group breaks off if the page cannot end with it, and counts its entry
all the same. -/
theorem breaksOff_or_of_deliver (due : m.IsDue) {outcome : Except ReadError Entry}
    {m'' : Materializer} (hgather : (m.signal raised).gather = (.ok (some group), m'))
    (hdeliver : m'.deliver group = (outcome, m'')) :
    m.BreaksOff raised ∧ (∃ e, outcome = .error e) ∧ m''.produced = m.produced + 1 ∨
      ¬ m.BreaksOff raised ∧ m''.produced = m.produced + outcome.toOption.toList.length := by
  have hbreaks : m.BreaksOff raised ↔ m.Strands group.run := by
    refine ⟨fun h => ?_, fun hstrands => ⟨due, group, m', hgather, hstrands⟩⟩
    obtain ⟨group', m₁, hgather', hstrands⟩ := h.strands
    cases hgather'.symm.trans hgather
    exact hstrands
  obtain ⟨cursor, lookahead, highWater, -, rfl⟩ := exists_eq_of_gather hgather
  let m' : Materializer := { m.signal raised with cursor, lookahead, highWater }
  have hroom : m'.isPageFull = false := due.room
  have hstrands : m.Strands group.run ↔ m'.Strands group.run :=
    ⟨fun h => ⟨h.builds, h.fills, h.lacks⟩, fun h => ⟨h.builds, h.fills, h.lacks⟩⟩
  rw [hbreaks, hstrands]
  exact produced_of_deliver hroom hdeliver

/-- An open materializer whose look is passed counts as `proceed` does. -/
theorem CallCounts.of_proceed (hopen : m.finished = false) (hcheck : m.cursor.check = .ok ())
    (raised : Bool) : m.CallCounts raised (m.signal raised).proceed := by
  have hproceeds := (m.signal raised).proceeds
  generalize (m.signal raised).proceed = result at hproceeds ⊢
  cases hproceeds with
  | pageFull hfull =>
    refine .counted (fun h => ?_) rfl
    cases h.due.room.symm.trans hfull
  | unread _ hgather | ended _ hgather =>
    obtain ⟨_, _, _, -, rfl⟩ := exists_eq_of_gather hgather
    refine .counted (fun h => ?_) rfl
    obtain ⟨group, m', hsome, -⟩ := h.strands
    cases hsome.symm.trans hgather
  | unbuilt hroom hgather hdeliver =>
    rcases breaksOff_or_of_deliver ⟨hopen, hcheck, hroom⟩ hgather hdeliver with
      ⟨hbreaks, -, hproduced⟩ | ⟨hbreaks, hproduced⟩
    · exact .brokenOff hbreaks hproduced rfl
    · exact .counted hbreaks hproduced
  | yielded hroom hgather hdeliver =>
    rcases breaksOff_or_of_deliver ⟨hopen, hcheck, hroom⟩ hgather hdeliver with
      ⟨-, ⟨e, he⟩, -⟩ | ⟨hbreaks, hproduced⟩
    · cases he
    · exact .counted hbreaks hproduced

/-- **One call raises the count by one** if it delivers an entry or breaks off, and else leaves it.
-/
theorem callCounts (m : Materializer) (raised : Bool) : m.CallCounts raised (m.call raised) := by
  cases hfinished : m.finished with
  | true =>
    rw [call_of_finished hfinished]
    refine .counted (fun h => ?_) rfl
    cases hfinished.symm.trans h.due.finished
  | false =>
    rw [call_of_open hfinished]
    cases hcheck : m.cursor.check with
    | error e =>
      refine .counted (fun h => ?_) rfl
      cases hcheck.symm.trans h.due.check
    | ok _ => exact .of_proceed hfinished hcheck raised

/-! ## Runs -/

theorem entriesOf_append (answers later : List (Except ReadError (Option Entry))) :
    entriesOf (answers ++ later) = entriesOf answers ++ entriesOf later := List.filterMap_append

/-- **A run in which some call breaks off.** -/
inductive HasBrokenOff (start : Materializer) :
    List (Except ReadError (Option Entry)) → Materializer → Prop
  | intro {earlier later : List (Except ReadError (Option Entry))} {m m' : Materializer}
    {raised : Bool} (hearlier : consumer.Plays start earlier m) (hbreaks : m.BreaksOff raised)
    (hlater : consumer.Plays (m.call raised).2 later m') :
    HasBrokenOff start (earlier ++ (m.call raised).1 :: later) m'

/-- Behind its end a materializer counts nothing. -/
theorem produced_of_plays_finished (h : consumer.Plays m later m') (hfinished : m.finished = true) :
    m'.finished = true ∧ m'.produced = m.produced ∧ entriesOf later = [] := by
  induction h with
  | nil => exact ⟨hfinished, rfl, rfl⟩
  | @call later m' _ how raised ih =>
    have hcall := call_of_finished ih.1 raised
    change (m'.call raised).2.finished = true ∧ (m'.call raised).2.produced = m.produced ∧
      entriesOf (later ++ [(m'.call raised).1]) = []
    rw [hcall, entriesOf_concat_none]
    exact ih
  | cancel _ ih => exact ih

/-- A run counts the entries that it answers, unless it breaks off. -/
theorem produced_eq_or_hasBrokenOff (hstart : start.produced = 0)
    (h : consumer.Plays start answers m) :
    m.produced = (entriesOf answers).length ∨ HasBrokenOff start answers m := by
  induction h with
  | nil => exact .inl hstart
  | @call answers m hplays _ raised ih =>
    change (m.call raised).2.produced = (entriesOf (answers ++ [(m.call raised).1])).length ∨
      HasBrokenOff start (answers ++ [(m.call raised).1]) (m.call raised).2
    rcases ih with hcount | hbroken
    · by_cases hbreaks : m.BreaksOff raised
      · exact .inr (.intro hplays hbreaks .nil)
      · left
        have hcounts := m.callCounts raised
        generalize m.call raised = result at hcounts ⊢
        cases hcounts with
        | brokenOff h => exact absurd h hbreaks
        | counted _ hproduced =>
          rw [hproduced, hcount, entriesOf_append, List.length_append]
    · -- The call that broke off stays where it was; what comes behind it has one call more.
      cases hbroken with
      | intro hearlier hbreaks hlater =>
        rw [List.append_assoc]
        exact .inr (.intro hearlier hbreaks (hlater.call () raised))
  | cancel _ ih =>
    rcases ih with hcount | ⟨hearlier, hbreaks, hlater⟩
    · exact .inl hcount
    · exact .inr (.intro hearlier hbreaks hlater.cancel)

/-- A run that breaks off is one ahead of its entries, and has come to the last group of its
page. -/
theorem HasBrokenOff.produced_eq {layout : Layout} {deliveries : List Delivery}
    {pageSize : Option Nat} (hstart : Played layout deliveries pageSize [] start)
    (h : HasBrokenOff start answers m) :
    m.produced = (entriesOf answers).length + 1 ∧
      pageSize = some ((entriesOf answers).length + 1) ∧
      ∃ rows, IsWhole layout deliveries (entriesOf answers).length rows ∧
        ∃ column ∈ layout.continuation, Lacks rows column.column := by
  cases h with
  | @intro earlier later m₀ _ raised hearlier hbreaks hlater =>
    -- Nothing had ended before that call, so it gathers the whole group behind those used so far.
    have hplayed := hstart.of_plays hearlier
    obtain ⟨hcount, groups, hlength, huses⟩ := hplayed.uses_of_open hbreaks.due.finished
    obtain ⟨group, m₁, hgather, hstrands⟩ := hbreaks.strands
    have hcounts := m₀.callCounts raised
    generalize m₀.call raised = result at hcounts hlater ⊢
    cases hcounts with
    | counted h => exact absurd hbreaks h
    | brokenOff _ hproduced hfinished =>
      obtain ⟨-, hlast, hnone⟩ := produced_of_plays_finished hlater hfinished
      have hentries (e : ReadError) : entriesOf (earlier ++ .error e :: later) =
          entriesOf earlier := by
        rw [List.append_cons, entriesOf_append, hnone, List.append_nil]
        simp [entriesOf, Except.toOption]
      rw [hentries, ← hcount]
      refine ⟨hlast.trans hproduced, hplayed.pageSize_eq ▸ hstrands.fills, group.run.rows, ?_, ?_⟩
      · rw [hcount, ← hlength]
        exact ((huses.signal raised).of_gather_some hgather).2
      · rw [← huses.layout_eq]
        exact hstrands.lacks

/-- **What the count tells**, whatever was done so far. -/
structure CountsEntries (layout : Layout) (deliveries : List Delivery) (pageSize : Option Nat)
    (start : Materializer) (answers : List (Except ReadError (Option Entry))) (m : Materializer) :
    Prop where
  /-- It is the number of entries, unless a call has broken off. -/
  produced_iff : m.produced = (entriesOf answers).length ↔ ¬ HasBrokenOff start answers m
  /-- Then it is one ahead; the last group of the page lacks a column of the continuation. -/
  brokenOff : HasBrokenOff start answers m → m.produced = (entriesOf answers).length + 1 ∧
    pageSize = some ((entriesOf answers).length + 1) ∧
      ∃ rows, IsWhole layout deliveries (entriesOf answers).length rows ∧
        ∃ column ∈ layout.continuation, Lacks rows column.column
  /-- A call that breaks off fails, -/
  fails : ∀ raised, m.BreaksOff raised → ∃ e, (m.call raised).1 = .error e
  /-- and no other call that fails changes the count. -/
  call_error : ∀ raised e, (m.call raised).1 = .error e →
    ((m.call raised).2.produced = m.produced ↔ ¬ m.BreaksOff raised)
  /-- Rows that are wide enough lack nothing. -/
  wide : layout.ShowsContinuation (readable deliveries) → m.produced = (entriesOf answers).length

/-- **The entries produced are those answered, but for a page that cannot end.**  Over whatever a
source delivers, with the signal raised at any time, the count is the number of entries so far,
until a call has built the entry that fills the page and cannot read its continuation: it fails, and
the count is one ahead from then on. -/
theorem counts_entries (layout : Layout) (deliveries : List Delivery) (cancelOn : Option Nat)
    (watching : Bool) (limit : Nat) (pageSize : Option Nat)
    (answers : List (Except ReadError (Option Entry))) (m : Materializer) :
    let source : Cursor := { Cursor.ofDeliveries deliveries with cancelOn, watching }
    let start : Materializer := { ofCursor layout source limit with pageSize }
    consumer.Plays start answers m → CountsEntries layout deliveries pageSize start answers m := by
  intro source start h
  have hstart : Played layout deliveries pageSize [] start :=
    played_ofCursor layout source rfl rfl limit pageSize
  have hcounts := produced_eq_or_hasBrokenOff rfl h
  have hbroken (hbreaks : HasBrokenOff start answers m) := hbreaks.produced_eq hstart
  have hno (hshows : layout.ShowsContinuation (readable deliveries)) :
      ¬ HasBrokenOff start answers m := fun hbreaks => by
    obtain ⟨-, -, rows, hwhole, column, hcolumn, hlacks⟩ := hbroken hbreaks
    obtain ⟨row, hrow, hwidth⟩ := hlacks.exists_width_le
    exact Nat.not_le.2 (hshows.of_getElem?_groups hwhole.1 column hcolumn row hrow) hwidth
  refine ⟨⟨fun hcount hbreaks => ?_, hcounts.resolve_right⟩, hbroken, fun raised hbreaks => ?_,
    fun raised e he => ?_, fun hshows => hcounts.resolve_right (hno hshows)⟩
  · have hahead := (hbroken hbreaks).1
    omega
  · have hcall := m.callCounts raised
    generalize m.call raised = result at hcall ⊢
    cases hcall with
    | brokenOff => exact ⟨_, rfl⟩
    | counted h => exact absurd hbreaks h
  · have hcall := m.callCounts raised
    generalize m.call raised = result at hcall he ⊢
    cases hcall with
    | brokenOff hbreaks hproduced =>
      have hahead (hsame : _ = m.produced) := (Nat.succ_ne_self _) (hproduced.symm.trans hsame)
      exact iff_of_false hahead (not_not_intro hbreaks)
    | counted hbreaks hproduced =>
      cases he
      exact iff_of_true hproduced hbreaks

end Materializer

/-! ## Players, whose pages continue by a rank -/

/-- Players.  Their rank is no property of theirs, but a page continues by it. -/
def LevelSpec.players : LevelSpec := (LevelSpec.empty.key "Id" 0).continueBy ⟨"Rank", ["Rank"], 1⟩

/-- Players by `Id`, continued at a rank. -/
def Layout.players : Layout where
  root := .mk ⟨0, .root, [⟨"Id", 0⟩], [0], [0], [0], none, 0⟩ []
  continuation := [⟨"Rank", ["Rank"], 1⟩]
  width := 2

namespace Materializer

/-- A page of two players over some deliveries. -/
def players (deliveries : List Delivery) : Materializer :=
  (ofCursor .players (.ofDeliveries deliveries) 1).withPageSize 2

/-- Two players with a rank are counted as they are answered; where the second has none, the call
that comes to it breaks off. -/
theorem counts_entries_players :
    let ranked : List Delivery := [.row ⟨[.int 1, .int 5]⟩, .row ⟨[.int 2, .int 8]⟩]
    let unranked : List Delivery := [.row ⟨[.int 1, .int 5]⟩, .row ⟨[.int 2]⟩]
    let first := (players ranked).call false
    let second := first.2.call false
    let other := ((players unranked).call false).2
    second.2.produced = (entriesOf [first.1, second.1]).length ∧ other.produced = 1 ∧
      (other.call false).1 = .error (.columnOutOfRange 1 1) ∧ other.BreaksOff false := by
  intro ranked unranked first second other
  have hranked := (consumer.plays_call (players ranked) () false).call () false
  have hunranked := consumer.plays_call (players unranked) () false
  have hcounts := counts_entries .players ranked none false 1 (some 2) _ _ hranked
  have hcounts' := counts_entries .players unranked none false 1 (some 2) _ _ hunranked
  have hfails : (other.call false).1 = .error (.columnOutOfRange 1 1) := rfl
  have hshows : Layout.players.ShowsContinuation (readable ranked) := by
    rw [Layout.ShowsContinuation]
    decide
  refine ⟨hcounts.wide hshows, rfl, hfails, ?_⟩
  by_contra hbreaks
  cases (hcounts'.call_error false _ hfails).2 hbreaks

/-- **A player without a rank** ends a page of one in a fault, and has been counted. -/
theorem player_overcounted :
    let m := (ofCursor .players (.ofDeliveries [.row ⟨[.int 1]⟩]) 1).withPageSize 1
    LevelSpec.players.layout = .ok .players ∧
      consumer.Plays m [.error (.columnOutOfRange 1 1)] m.next.2 ∧
      entriesOf [.error (.columnOutOfRange 1 1)] = [] ∧ m.next.2.produced = 1 := by
  intro m
  have hplays := consumer.plays_call m () false
  exact ⟨rfl, hplays, rfl, rfl⟩

end Materializer

end QueryPlans
