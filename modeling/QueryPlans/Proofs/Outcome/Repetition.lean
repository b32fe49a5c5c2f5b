import QueryPlans.Proofs.Outcome.Entries
import QueryPlans.Proofs.Outcome.Transcript
import QueryPlans.Proofs.Page.Prefix

/-!
# Proofs/Outcome/Repetition — repeated rows are not seen

A row that comes again directly behind itself (`Repeats`) has the entities of the row before it at
every level.  Splitting such rows gives the same runs up to repetition (`Repeats.entityRuns`), of
which only the first rows are read, so entries are built alike (`Level.build_eq`).  A reader places
the row where it has just placed it, where it changes nothing and brings no event
(`Layout.placeRow_again`).
-/

namespace QueryPlans

/-! ## Rows that come again -/

/-- **Rows of which some come again** directly behind themselves, as often as they like. -/
inductive Repeats : List Row → List Row → Prop
  | nil : Repeats [] []
  | next {rows rows' : List Row} (h : Repeats rows rows') (row : Row) :
    Repeats (rows ++ [row]) (rows' ++ [row])
  | again {rows rows' : List Row} {row : Row} (h : Repeats rows rows')
    (hlast : row ∈ rows'.getLast?) : Repeats rows (rows' ++ [row])

/-- Runs whose rows come again, all of them as a predicate has it. -/
structure Run.Repeats (Q : Row → Prop) (run run' : Run) : Prop where
  rows : QueryPlans.Repeats run.rows run'.rows
  mem : ∀ row ∈ run.rows, Q row

namespace Repeats

variable {layout : Layout} {rows rows' later : List Row} {row : Row}

/-- The same rows may follow on both sides. -/
theorem append (h : Repeats rows rows') (later : List Row) :
    Repeats (rows ++ later) (rows' ++ later) := by
  induction later using List.reverseRecOn with
  | nil => simpa using h
  | append_singleton later row ih =>
    rw [← List.append_assoc, ← List.append_assoc]
    exact ih.next row

theorem refl (rows : List Row) : Repeats rows rows := nil.append rows

/-- One row that comes again. -/
theorem insert (before : List Row) (row : Row) (later : List Row) :
    Repeats (before ++ row :: later) (before ++ row :: row :: later) := by
  have h : Repeats (before ++ [row]) (before ++ [row] ++ [row]) := .again (.refl _) (by simp)
  simpa using h.append later

/-- A repetition begins with the same row. -/
theorem head?_eq (h : Repeats rows rows') : rows.head? = rows'.head? := by
  induction h with
  | nil => rfl
  | next _ row ih => rw [List.head?_append, List.head?_append, ih]
  | again _ hlast ih =>
    rw [List.head?_append, ih, Option.or_of_isSome]
    exact List.isSome_head?.2 (List.ne_nil_of_mem (List.mem_of_mem_getLast? hlast))

/-- It ends with the same row. -/
theorem getLast?_eq (h : Repeats rows rows') : rows.getLast? = rows'.getLast? := by
  induction h with
  | nil => rfl
  | next _ row _ => rw [List.getLast?_concat, List.getLast?_concat]
  | again _ hlast ih => rw [List.getLast?_concat, ih, Option.mem_def.1 hlast]

/-- It has the same rows. -/
theorem mem_iff (h : Repeats rows rows') : row ∈ rows' ↔ row ∈ rows := by
  induction h with
  | nil => rfl
  | next _ last ih => rw [List.mem_append, List.mem_append, ih]
  | again _ hlast ih =>
    rw [List.mem_append, List.mem_singleton, ih, or_iff_left_iff_imp]
    rintro rfl
    exact ih.1 (List.mem_of_mem_getLast? hlast)

theorem length_le (h : Repeats rows rows') : rows.length ≤ rows'.length := by
  induction h with
  | nil => exact Nat.le_refl 0
  | next _ _ ih =>
    rw [List.length_append, List.length_append]
    exact Nat.add_le_add_right ih 1
  | again _ _ ih =>
    rw [List.length_append]
    exact Nat.le_succ_of_le ih

/-- **The groups** of rows that come again are groups whose rows come again. -/
theorem groups (layout : Layout) (h : Repeats rows rows') :
    List.Forall₂ Repeats (layout.groups rows) (layout.groups rows') := by
  induction h with
  | nil => exact .nil
  | next _ row ih =>
    simp only [Layout.groups, LevelInfo.blocks, splitBy_concat] at ih ⊢
    refine forall₂_growLast ih (fun _ _ h => ?_) (fun _ _ h => h.next row) (.refl _)
    rw [h.getLast?_eq]
  | @again _ rows' row _ hlast ih =>
    let r (a b : Row) : Bool := layout.root.info.isSame a.toCells b.toCells
    have hne : rows' ≠ [] := List.ne_nil_of_mem (List.mem_of_mem_getLast? hlast)
    obtain ⟨blocks, block, hblock, hsplit, hend⟩ := exists_splitBy_concat r hne
    have hrow : block.getLast? = some row := by
      rw [List.getLast?_eq_some_getLast hblock, hend, ← List.getLast?_eq_some_getLast hne]
      exact hlast
    simp only [Layout.groups, LevelInfo.blocks, splitBy_concat] at ih ⊢
    rw [show rows'.splitBy _ = _ from hsplit] at ih ⊢
    rw [growLast_concat, hrow, Option.any_some, LevelInfo.isSame_self, if_pos rfl]
    exact forall₂_concat_of_forall₂_concat ih fun _ h => h.again hrow

/-- The last value that is not null is not touched. -/
theorem lastValue_eq (h : Repeats rows rows') (column : Nat) :
    lastValue column rows = lastValue column rows' := by
  induction h with
  | nil => rfl
  | next _ row ih =>
    simp only [lastValue, List.map_append, List.reverse_append, List.map_cons, List.map_nil,
      List.reverse_singleton, List.singleton_append, List.find?_cons] at ih ⊢
    split
    · rfl
    · exact ih
  | again _ hlast ih =>
    obtain ⟨init, rfl⟩ := List.getLast?_eq_some_iff.1 hlast
    rw [ih]
    simp only [lastValue, List.map_append, List.reverse_append, List.map_cons, List.map_nil,
      List.reverse_singleton, List.singleton_append, List.find?_cons]
    split <;> rfl

end Repeats

/-! ## Splitting rows that come again -/

/-- Runs of a level side by side. -/
structure Runs.Repeats (Q : Row → Prop) (s s' : Runs) : Prop where
  closed : List.Forall₂ (Run.Repeats Q) s.closedReversed s'.closedReversed
  current : Option.Rel (Run.Repeats Q) s.current s'.current

section

variable {Q : Row → Prop} {level : LevelInfo} {row : Row} {rows rows' : List Row} {run run' : Run}
  {runs runs' : List Run} {s s' : Runs}

namespace Run.Repeats

theorem first_eq (h : run.Repeats Q run') : run.first = run'.first :=
  Option.some.inj h.rows.head?_eq

theorem add (h : run.Repeats Q run') (hrow : Q row) : (run.add row).Repeats Q (run'.add row) where
  rows := by
    rw [Run.rows_add, Run.rows_add]
    exact h.rows.next row
  mem := by
    rw [Run.rows_add]
    exact List.forall_mem_append.2 ⟨h.mem, List.forall_mem_singleton.2 hrow⟩

/-- **The last row of a run once more** changes nothing of it but its length. -/
theorem again (h : run.Repeats Q run') (hlast : row ∈ run'.rows.getLast?) :
    run.Repeats Q (run'.add row) where
  rows := by
    rw [Run.rows_add]
    exact h.rows.again hlast
  mem := h.mem

theorem ofRow (hrow : Q row) : (Run.ofRow row).Repeats Q (.ofRow row) :=
  ⟨.refl [row], List.forall_mem_singleton.2 hrow⟩

end Run.Repeats

/-- Only the first rows are looked at. -/
theorem anySameEntity_eq (h : List.Forall₂ (Run.Repeats Q) runs runs') :
    anySameEntity level row runs = anySameEntity level row runs' := by
  induction h with
  | nil => rfl
  | cons head _ ih => rw [anySameEntity, anySameEntity, head.first_eq, ih]

namespace Runs

theorem Repeats.close (h : s.Repeats Q s') : s.close.Repeats Q s'.close where
  closed := by
    obtain ⟨closed, current⟩ := s
    obtain ⟨closed', current'⟩ := s'
    cases h.current with
    | none => exact h.closed
    | some hrun => exact .cons hrun h.closed
  current := .none

/-- A run starts on both sides or on neither. -/
theorem Repeats.start (h : s.Repeats Q s') (hrow : Q row) :
    Alike (Repeats Q) (s.start level row) (s'.start level row) := by
  have hclose := h.close
  have hopened : Repeats Q { s.close with current := some (.ofRow row) }
      { s'.close with current := some (.ofRow row) } := ⟨hclose.closed, .some (.ofRow hrow)⟩
  have hany : anySameEntity level row s.close.closedReversed.reverse =
      anySameEntity level row s'.close.closedReversed.reverse :=
    anySameEntity_eq (List.forall₂_reverse_iff.2 hclose.closed)
  rw [Runs.start, Runs.start, hany]
  cases level.hasKey row with
  | error e => exact .error e
  | ok keyed =>
    cases keyed with
    | false => exact .ok hopened
    | true =>
      simp only [ok_bind, if_true]
      cases anySameEntity level row s'.close.closedReversed.reverse with
      | error e => exact .error e
      | ok found =>
        cases found with
        | true => exact .error _
        | false => exact .ok hopened

/-- **A row does the same** to runs whose rows come again. -/
theorem Repeats.add (h : s.Repeats Q s') (hrow : Q row) :
    Alike (Repeats Q) (s.add level row) (s'.add level row) := by
  rw [Runs.add, Runs.add]
  cases level.isPresent row with
  | error e => exact .error e
  | ok present =>
    cases present with
    | false =>
      cases level.isSubtreePresent row with
      | error e => exact .error e
      | ok subtree =>
        cases subtree with
        | true => exact .error _
        | false => exact .ok h.close
    | true =>
      obtain ⟨closed, current⟩ := s
      obtain ⟨closed', current'⟩ := s'
      cases h.current with
      | none => exact h.start hrow
      | @some run run' hrun =>
        simp only [ok_bind, if_true, hrun.first_eq]
        cases level.sameEntity run'.first row with
        | error e => exact .error e
        | ok same =>
          cases same with
          | false => exact h.start hrow
          | true => exact .ok ⟨h.closed, .some (hrun.add hrow)⟩

/-- **Runs that a row has just been added to**: once more it only makes the last of them longer. -/
structure Absorbs (level : LevelInfo) (row : Row) (s : Runs) : Prop where
  add_eq : s.add level row = .ok { s with current := s.current.map fun run => run.add row }
  last : ∀ run ∈ s.current, row ∈ run.rows.getLast?

theorem getLast?_rows_add (run : Run) (row : Row) : row ∈ (run.add row).rows.getLast? := by
  rw [Run.rows_add, List.getLast?_concat]
  rfl

/-- The row that was added last is absorbed when it comes again. -/
theorem absorbs_of_current (hpresent : level.isPresent row = .ok true) (hcurrent : s.current = run)
    (hsame : level.sameEntity run.first row = .ok true) (hlast : row ∈ run.rows.getLast?) :
    s.Absorbs level row where
  add_eq := by simp [Runs.add, hpresent, hcurrent, hsame]
  last := by simpa [hcurrent] using hlast

/-- So is a row that was just added. -/
theorem absorbs_of_add (hself : level.sameEntity row row = .ok true)
    (h : s.add level row = .ok s') : s'.Absorbs level row := by
  cases add_cases h with
  | absent hpresent hsubtree =>
    refine ⟨?_, nofun⟩
    simp [Runs.add, hpresent, hsubtree, Runs.close]
  | @same run hpresent _ hsame =>
    exact absorbs_of_current hpresent rfl hsame (getLast?_rows_add run row)
  | other hpresent _ _ _ => exact absorbs_of_current hpresent rfl hself rfl

/-- Runs that have absorbed a row repeat those that have not. -/
theorem Repeats.again (h : s.Repeats Q s') (habsorbs : s'.Absorbs level row) :
    s.Repeats Q { s' with current := s'.current.map fun run => run.add row } where
  closed := h.closed
  current := by
    obtain ⟨closed, current⟩ := s
    obtain ⟨closed', current'⟩ := s'
    cases h.current with
    | none => exact .none
    | some hrun => exact .some (hrun.again (habsorbs.last _ rfl))

end Runs

/-- **Splitting rows that come again** comes to the same, fault or runs. -/
theorem Repeats.entityRuns (h : Repeats rows rows') (hrows : ∀ row ∈ rows, Q row)
    (hself : ∀ row, Q row → level.sameEntity row row = .ok true) :
    Alike (List.Forall₂ (Run.Repeats Q)) (entityRuns level rows) (entityRuns level rows') := by
  have hfold : Alike
      (fun s s' => Runs.Repeats Q s s' ∧ ∀ row ∈ rows'.getLast?, s'.Absorbs level row)
      (rows.foldlM (Runs.add level) .none) (rows'.foldlM (Runs.add level) .none) := by
    induction h with
    | nil => exact .ok ⟨⟨.nil, .none⟩, nofun⟩
    | @next rows rows' _ row ih =>
      rw [List.forall_mem_append, List.forall_mem_singleton] at hrows
      simp only [List.foldlM_append, List.foldlM_cons, List.foldlM_nil, bind_pure]
      refine (ih hrows.1).bind fun s s' ⟨hs, _⟩ => ?_
      refine (hs.add hrows.2).and_right fun s'' hadd last hlast => ?_
      obtain rfl := Runs.getLast?_concat hlast
      exact Runs.absorbs_of_add (hself _ hrows.2) hadd
    | @again rows rows' row h hlast ih =>
      rw [List.foldlM_append, ← bind_pure (rows.foldlM (Runs.add level) .none)]
      refine (ih hrows).bind fun s s' ⟨hs, habsorbs⟩ => ?_
      have hagain := habsorbs row hlast
      have hrow : row ∈ rows := h.mem_iff.1 (List.mem_of_mem_getLast? hlast)
      rw [List.foldlM_cons, hagain.add_eq]
      refine .ok ⟨hs.again hagain, fun last hlast' => ?_⟩
      obtain rfl := Runs.getLast?_concat hlast'
      exact Runs.absorbs_of_add (hself _ (hrows _ hrow)) hagain.add_eq
  exact hfold.bind fun s s' ⟨hs, _⟩ => .ok (List.forall₂_reverse_iff.2 hs.close.closed)

end

/-! ## Entries -/

variable {Q : Row → Prop} {layout : Layout} {row : Row} {rows rows' : List Row} {limit : Nat}

/-- The navigations are built alike if the entries below are. -/
theorem Run.Repeats.buildNavigations_eq {children : List Level} {run run' : Run}
    (h : run.Repeats Q run')
    (hself : ∀ child ∈ children, ∀ row, Q row → child.info.sameEntity row row = .ok true)
    (hbuild : ∀ child ∈ children, ∀ run run', run.Repeats Q run' →
      child.build run = child.build run') :
    buildNavigations run.rows children = buildNavigations run'.rows children := by
  induction children with
  | nil => rfl
  | cons child rest ih =>
    rw [List.forall_mem_cons] at hself hbuild
    rw [buildNavigations, buildNavigations, ih hself.2 hbuild.2]
    refine (h.rows.entityRuns h.mem hself.1).bind_eq fun runs runs' hruns => ?_
    rw [hruns.length_eq, mapM_eq_mapM (hruns.imp hbuild.1)]

/-- **Entries of rows that come again** are built alike. -/
theorem Level.build_eq {level : Level} {run run' : Run} (h : run.Repeats Q run')
    (hwf : level.WellFormed)
    (hshows : ∀ row, Q row → row.Shows level.info.subtreeColumns row.toCells) :
    level.build run = level.build run' := by
  induction level generalizing run run' with
  | mk info children ih =>
    have hshows' : ∀ child ∈ children, ∀ row, Q row →
        row.Shows child.info.subtreeColumns row.toCells := fun child hchild row hrow =>
      (hshows row hrow).mono fun _ => hwf.owns.subtree_of_child hchild
    rw [Level.build, Level.build, h.first_eq,
      h.buildNavigations_eq (fun child hchild row hrow => ?_) fun child hchild run run' hrun => ?_]
    · exact (hwf.child hchild).owns.sameEntity_self (hshows' child hchild row hrow)
    · exact ih child hchild hrun (hwf.child hchild) (hshows' child hchild)

/-- **The entry of a group does not tell its repetitions.** -/
theorem Repeats.entryOf_eq (h : Repeats rows rows') (hwf : layout.root.WellFormed)
    (hshows : layout.ShowsLevels rows) (hlimit : rows'.length ≤ limit) :
    layout.entryOf limit rows = layout.entryOf limit rows' := by
  have hle := h.length_le
  have hhead := h.head?_eq
  rcases rows with _ | ⟨first, later⟩
  · obtain rfl : rows' = [] := List.head?_eq_none_iff.1 hhead.symm
    rfl
  · obtain ⟨later', rfl⟩ := List.head?_eq_some_iff.1 hhead.symm
    have hruns :
        Run.Repeats (· ∈ first :: later) ⟨first, later.reverse⟩ ⟨first, later'.reverse⟩ := by
      refine ⟨?_, ?_⟩
      · simpa [Run.rows] using h
      · simp [Run.rows]
    have hlimit : max limit 1 = limit := Nat.max_eq_left (Nat.le_trans (by simp) hlimit)
    rw [Layout.entryOf, Layout.entryOf, if_neg (c := max limit 1 < (first :: later).length),
      if_neg (c := max limit 1 < (first :: later').length), Level.build_eq hruns hwf hshows]
    all_goals omega

/-- **The entries of the groups** are not touched. -/
theorem Repeats.entries_eq (h : Repeats rows rows') (hwf : layout.root.WellFormed)
    (hshows : layout.ShowsLevels rows)
    (hlimit : ∀ group ∈ layout.groups rows', group.length ≤ limit) :
    (layout.groups rows).map (layout.entryOf limit) =
      (layout.groups rows').map (layout.entryOf limit) := by
  refine map_eq_map_of_forall₂ (h.groups layout) fun group hgroup group' hgroup' hrepeats => ?_
  refine hrepeats.entryOf_eq hwf (fun row hrow => hshows row ?_) (hlimit group' hgroup')
  rw [← layout.flatten_groups rows]
  exact List.mem_flatten_of_mem hgroup hrow

/-- The continuations of the groups are not touched. -/
theorem Repeats.continuationAfter_eq (h : Repeats rows rows') (k : Nat) {group group' : List Row}
    (hgroup : (layout.groups rows)[k]? = some group)
    (hgroup' : (layout.groups rows')[k]? = some group') :
    layout.continuationAfter group = layout.continuationAfter group' := by
  obtain ⟨hlt, rfl⟩ := List.getElem?_eq_some_iff.1 hgroup
  obtain ⟨hlt', rfl⟩ := List.getElem?_eq_some_iff.1 hgroup'
  have hrepeats : Repeats (layout.groups rows)[k] (layout.groups rows')[k] :=
    (h.groups layout).get hlt hlt'
  simp only [Layout.continuationAfter, hrepeats.lastValue_eq]

/-! ## Pages -/

namespace Materializer

variable {k n : Nat} {m m' : Materializer}
  {full full' page page' : Except ReadError (Option Entry) × Materializer}

/-- Last calls of pages that come to the same. -/
theorem Closes.eq (h : Closes layout rows k full page) (h' : Closes layout rows' k full' page')
    (hfull : full.1 = full'.1)
    (hgroups : ∀ group ∈ (layout.groups rows)[k]?, ∀ group' ∈ (layout.groups rows')[k]?,
      layout.continuationAfter group = layout.continuationAfter group') :
    page.1 = page'.1 ∧ page.2.continuation = page'.2.continuation := by
  cases h with
  | filled hgroup _ hentry hpage hissued =>
    cases h' with
    | filled hgroup' _ hentry' hpage' hissued' =>
      cases hentry.symm.trans (hfull.trans hentry')
      rw [hpage, hpage', hissued, hissued', hgroups _ hgroup _ hgroup']
      exact ⟨rfl, rfl⟩
    | short hnone => exact absurd (hfull.symm.trans hentry) (hnone _)
  | short hnone hpage hissued =>
    cases h' with
    | filled _ _ hentry' => exact absurd (hfull.trans hentry') (hnone _)
    | short _ hpage' hissued' => exact ⟨by rw [hpage, hpage', hfull], hissued.trans hissued'.symm⟩

/-- **Pages of results that are the same** are the same, and so are their continuations. -/
theorem Progress.page_eq (h : Progress layout rows 0 m) (h' : Progress layout rows' 0 m')
    (due : m.IsDue) (due' : m'.IsDue) (hshows : layout.ShowsContinuation rows)
    (hshows' : layout.ShowsContinuation rows') (hanswers : ∀ i, m.answer i = m'.answer i)
    (hgroups : ∀ k : Nat, ∀ group ∈ (layout.groups rows)[k]?,
      ∀ group' ∈ (layout.groups rows')[k]?,
        layout.continuationAfter group = layout.continuationAfter group') (n i : Nat) :
    (m.withPageSize n).answer i = (m'.withPageSize n).answer i ∧
      ((m.withPageSize n).after i).continuation = ((m'.withPageSize n).after i).continuation := by
  have hlast (k : Nat) := (h.closes_after hshows k).1.eq (h'.closes_after hshows' k).1
    (hanswers k) (hgroups k)
  rcases Nat.lt_or_ge i n with hlt | hle
  · have hcontinuation : ((m.withPageSize n).after i).continuation =
        ((m'.withPageSize n).after i).continuation := by
      rw [h.after_withPageSize hlt, h'.after_withPageSize hlt]
      exact (h.after i).continuation.trans (h'.after i).continuation.symm
    refine ⟨?_, hcontinuation⟩
    rcases Nat.lt_or_eq_of_le (Nat.succ_le_of_lt hlt) with hlt | rfl
    · rw [h.answer_withPageSize hlt, h'.answer_withPageSize hlt, hanswers]
    · exact (hlast i).1
  · obtain ⟨hnone, -, hissued⟩ := h.behind_page due hshows hle
    obtain ⟨hnone', -, hissued'⟩ := h'.behind_page due' hshows' hle
    refine ⟨hnone.trans hnone'.symm, ?_⟩
    rw [hissued, hissued']
    cases n with
    | zero => exact h.continuation.trans h'.continuation.symm
    | succ k => exact (hlast k).2

/-- **Materializers of rows that come again** answer the same, and issue the same continuation. -/
theorem answer_eq_of_repeats (h : Repeats rows rows') (hwf : layout.root.WellFormed)
    (hshows : layout.ShowsLevels rows) (hcontinuation : layout.ShowsContinuation rows)
    (hlimit : ∀ group ∈ layout.groups rows', group.length ≤ limit) (pageSize : Option Nat)
    (i : Nat) :
    let consume (rows : List Row) : Materializer :=
      { ofCursor layout (.ofDeliveries (rows.map .row)) limit with pageSize }
    (consume rows').answer i = (consume rows).answer i ∧
      ((consume rows').after i).continuation = ((consume rows).after i).continuation := by
  intro consume
  have hshows' : layout.ShowsLevels rows' := fun row hrow => hshows row (h.mem_iff.1 hrow)
  have hcontinuation' : layout.ShowsContinuation rows' := fun column hcolumn row hrow =>
    hcontinuation column hcolumn row (h.mem_iff.1 hrow)
  have hanswers (i : Nat) : (ofCursor layout (.ofDeliveries (rows'.map .row)) limit).answer i =
      (ofCursor layout (.ofDeliveries (rows.map .row)) limit).answer i := by
    rw [answer_ofDeliveries hwf hshows, answer_ofDeliveries hwf hshows',
      h.entries_eq hwf hshows hlimit]
  have hprogress := Progress.ofDeliveries layout (rows.map .row) limit
  have hprogress' := Progress.ofDeliveries layout (rows'.map .row) limit
  rw [readable_map_row] at hprogress hprogress'
  cases pageSize with
  | none =>
    exact ⟨hanswers i,
      (hprogress'.after i).continuation.trans (hprogress.after i).continuation.symm⟩
  | some n =>
    exact hprogress'.page_eq hprogress ⟨rfl, rfl, rfl⟩ ⟨rfl, rfl, rfl⟩ hcontinuation' hcontinuation
      hanswers (fun k _ hgroup' _ hgroup => (h.continuationAfter_eq k hgroup hgroup').symm) n i

end Materializer

/-! ## Placing a row once more -/

section

variable {f : Frame} {deeper frames frames' : List Frame} {events : List Event}

/-- **A row that was placed below an element** changes nothing there when it is placed once
more. -/
theorem Level.place_again {level : Level} (h : level.place row f deeper = .ok (events, frames))
    (hwf : level.WellFormed) (hshows : row.Shows level.info.subtreeColumns row.toCells) :
    level.placement row frames = .ok ([], frames) := by
  induction level generalizing f deeper events frames with
  | mk info children ih =>
    rcases place_cases h with ⟨hblank, rfl, rfl⟩ | ⟨pre, child, rest, rfl, hreaches, -, hplaced⟩
    · exact h
    · have hmem : child ∈ pre ++ child :: rest := by simp
      have hwf' := hwf.child hmem
      have hshows' : row.Shows child.info.subtreeColumns row.toCells :=
        hshows.mono fun _ => hwf.owns.subtree_of_child hmem
      cases hplaced with
      | same hopen hvisited hsame hplace =>
        obtain ⟨inner, deeper, rfl, hrow, -⟩ := place_remains hplace
        exact place_same info hreaches hopen hvisited (hrow ▸ hsame)
          (ih child hmem hplace hwf' hshows')
      | other _ _ hplace =>
        obtain ⟨inner, deeper, rfl, hrow, -⟩ := place_remains hplace
        have hself : child.info.sameEntity inner.row row = .ok true :=
          hrow ▸ hwf'.owns.sameEntity_self hshows'
        exact place_same info hreaches rfl rfl hself (ih child hmem hplace hwf' hshows')

namespace Layout

/-- **A row that was placed** brings no event when it is placed once more, and changes nothing. -/
theorem placeRow_again (h : layout.placeRow row frames = .ok (events, frames'))
    (hwf : layout.root.WellFormed)
    (hshows : row.Shows layout.root.info.subtreeColumns row.toCells) :
    layout.placeRow row frames' = .ok ([], frames') := by
  obtain ⟨hpresent, hplaced⟩ := placeRow_cases h
  cases hplaced with
  | same hsame hplace =>
    have hagain := Level.place_again hplace hwf hshows
    obtain ⟨f, deeper, rfl, hrow, -⟩ := Level.place_remains hplace
    rw [← hrow] at hsame
    simpa [placeRow, hpresent, hsame, Level.placement] using hagain
  | other _ _ hplace =>
    have hagain := Level.place_again hplace hwf hshows
    obtain ⟨f, deeper, rfl, hrow, -⟩ := Level.place_remains hplace
    have hself : layout.root.info.sameEntity f.row row = .ok true :=
      hrow ▸ hwf.owns.sameEntity_self hshows
    simpa [placeRow, hpresent, hself, Level.placement] using hagain

/-- **A row that comes twice in a row makes no further events.** -/
theorem transcript_insert (hwf : layout.root.WellFormed)
    (hshows : row.Shows layout.root.info.subtreeColumns row.toCells) (before later : List Row)
    (frames : List Frame) :
    layout.transcript frames (before ++ row :: row :: later) =
      layout.transcript frames (before ++ row :: later) := by
  induction before generalizing frames with
  | nil =>
    cases hplace : layout.placeRow row frames with
    | error e =>
      rw [List.nil_append, List.nil_append, transcript_of_error hplace, transcript_of_error hplace]
    | ok placed =>
      obtain ⟨events, frames'⟩ := placed
      rw [List.nil_append, List.nil_append, transcript_of_ok hplace, transcript_of_ok hplace,
        transcript_of_ok (placeRow_again hplace hwf hshows), List.nil_append]
  | cons first before ih =>
    rw [List.cons_append, List.cons_append, transcript, transcript]
    cases layout.placeRow first frames with
    | error e => rfl
    | ok placed => simp only [ih]

end Layout

end

/-! ## Both consumers -/

/-- **Repeated rows are not seen.**  Where a row comes again directly behind itself, a materializer
whose limit all groups keep to answers the same, faults included, with or without a page size, and
issues the same continuation; a reader returns the same events and the same fault. -/
theorem repetition_unseen (spec : LevelSpec) (layout : Layout) (hlayout : spec.layout = .ok layout)
    (before : List Row) (row : Row) (later : List Row)
    (hwide : ∀ r ∈ before ++ row :: later, layout.width ≤ r.width) :
    let once := before ++ row :: later
    let again := before ++ row :: row :: later
    (∀ limit pageSize, (∀ group ∈ layout.groups again, group.length ≤ limit) →
      let consume (rows : List Row) : Materializer :=
        { Materializer.ofCursor layout (.ofDeliveries (rows.map .row)) limit with pageSize }
      ∀ i, (consume again).answer i = (consume once).answer i ∧
        ((consume again).after i).continuation = ((consume once).after i).continuation) ∧
    (let consume (rows : List Row) := EventReader.ofCursor layout (.ofDeliveries (rows.map .row))
      ∃ events fault, ∀ events' fault',
        ((consume once).Reads events' fault' ↔ events' = events ∧ fault' = fault) ∧
          ((consume again).Reads events' fault' ↔ events' = events ∧ fault' = fault)) := by
  intro once again
  have hwf := LevelSpec.wellFormed_of_layout hlayout
  have hrepeats : Repeats once again := .insert before row later
  have hshows := LevelSpec.showsLevels hlayout hwide
  have hcontinuation : layout.ShowsContinuation once := fun _ hcolumn r hr =>
    (LevelSpec.continuation_lt_width hlayout hcolumn).trans_le (hwide r hr)
  refine ⟨fun limit pageSize hlimit => ?_, ?_⟩
  · exact Materializer.answer_eq_of_repeats hrepeats hwf hshows hcontinuation hlimit pageSize
  · intro consume
    have hrow : row ∈ once := by simp [once]
    have hreads (rows : List Row) (events : List Event) (fault : Option ReadError) :
        (consume rows).Reads events fault ↔
          events = (layout.transcript [] rows).1 ∧ fault = (layout.transcript [] rows).2 :=
      (EventReader.reads_iff (Cursor.serves_ofDeliveries rows)).trans
        (Prod.ext_iff.trans (and_congr eq_comm eq_comm))
    refine ⟨_, _, fun events fault => ⟨hreads once events fault, ?_⟩⟩
    rw [hreads, Layout.transcript_insert hwf (hshows row hrow)]

/-- A trip that comes again at once is one trip; a trip that comes back later is a fault for the
materializer, and another element for the reader. -/
theorem repetition_unseen_travellers :
    let once : List Row := [⟨[.int 1, .int 10]⟩, ⟨[.int 1, .int 11]⟩, ⟨[.int 1, .int 10]⟩]
    let again : List Row :=
      [⟨[.int 1, .int 10]⟩, ⟨[.int 1, .int 11]⟩, ⟨[.int 1, .int 11]⟩, ⟨[.int 1, .int 10]⟩]
    (Materializer.ofCursor .travellers (.ofDeliveries (again.map .row)) 4).answer 0 =
        (Materializer.ofCursor .travellers (.ofDeliveries (once.map .row)) 4).answer 0 ∧
      (Materializer.ofCursor .travellers (.ofDeliveries (once.map .row)) 4).answer 0 =
        .error (.entityReappeared "Trips") ∧
      (EventReader.ofCursor .travellers (.ofDeliveries (again.map .row))).Reads
        [.startElement 0 [("Id", .int 1)], .startResource 1,
          .startElement 1 [("Trip", .int 10)], .endElement 1,
          .startElement 1 [("Trip", .int 11)], .endElement 1,
          .startElement 1 [("Trip", .int 10)], .endElement 1, .endResource 1, .endElement 0,
          .endOfRows] none := by
  intro once again
  obtain ⟨hanswers, events, fault, hreads⟩ := repetition_unseen .travellers .travellers rfl
    [⟨[.int 1, .int 10]⟩] ⟨[.int 1, .int 11]⟩ [⟨[.int 1, .int 10]⟩] (by decide)
  refine ⟨(hanswers 4 none (by decide) 0).1, rfl, ?_⟩
  obtain ⟨honce, hagain⟩ := hreads _ _
  exact hagain.2 (honce.1 ((EventReader.reads_iff (Cursor.serves_ofDeliveries once)).2 rfl))

end QueryPlans
