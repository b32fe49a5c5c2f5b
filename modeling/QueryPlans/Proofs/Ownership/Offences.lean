import QueryPlans.Proofs.Ownership.Runs

/-!
# Proofs/Ownership/Offences — why rows are not split

Splitting rows into the runs of a level compares a row with the first row of each run only.  It
refuses a row just when that row offends against those before it (`Runs.add_eq_error_iff`): the row
shows something below the level alone, or it shows an entity with a key that an earlier row shows
and some row between them does not.  So splitting fails for the first row that offends
(`entityRuns_eq_error_iff`).
-/

namespace QueryPlans

/-- **A row that may not stand behind others**, and what it is refused with. -/
inductive LevelInfo.Offends (level : LevelInfo) (before : List Row) (row : Row) : ReadError → Prop
  /-- Something below the level is shown without the level. -/
  | alone (hpresent : level.isPresent row = .ok false)
    (hsubtree : level.isSubtreePresent row = .ok true) :
    Offends level before row (.entityAbsent level.role.label)
  /-- An entity with a key is shown again behind a row that does not show it. -/
  | again {start between : List Row} {earlier other : Row} (hkey : level.hasKey row = .ok true)
    (hbefore : before = start ++ earlier :: between)
    (hsame : level.sameEntity earlier row = .ok true) (hother : other ∈ between)
    (hdiffers : level.isPresent other = .ok false ∨ level.sameEntity other row = .ok false) :
    Offends level before row (.entityReappeared level.role.label)

/-- Whether none of some rows offends against those before it. -/
def LevelInfo.IsOrderly (level : LevelInfo) (rows : List Row) : Prop :=
  ∀ before row after e, rows = before ++ row :: after → ¬ level.Offends before row e

/-- Rows that show all there is at a level and below. -/
def LevelInfo.ShownIn (level : LevelInfo) (rows : List Row) : Prop :=
  ∀ row ∈ rows, row.Shows level.subtreeColumns row.toCells

variable {level : LevelInfo} {children : List Level} {rows before : List Row} {row : Row}
  {e : ReadError}

/-! ## Answers about rows -/

namespace LevelInfo.ShownIn

variable {a b : Row}

theorem of_subset {rows' : List Row} (h : level.ShownIn rows) (hsub : rows' ⊆ rows) :
    level.ShownIn rows' := fun row hrow => h row (hsub hrow)

theorem isSubtreePresent_eq (h : level.ShownIn rows) (ha : a ∈ rows) :
    level.isSubtreePresent a = .ok (level.isSubtreePresentIn a.toCells) := (h a ha).anyPresent_eq

theorem isPresent_eq (h : level.ShownIn rows) (owns : Level.Owns level children) (ha : a ∈ rows) :
    level.isPresent a = .ok (level.isPresentIn a.toCells) := owns.isPresent_toCells (h a ha)

theorem hasKey_eq (h : level.ShownIn rows) (owns : Level.Owns level children) (ha : a ∈ rows) :
    level.hasKey a = .ok (level.isKeyedIn a.toCells) :=
  owns.hasKey_eq ((h a ha).mono fun _ => owns.subtree_of_mem)

/-- On rows that show a level, its checks are those of their cells. -/
theorem sameEntity_eq (h : level.ShownIn rows) (owns : Level.Owns level children) (ha : a ∈ rows)
    (hb : b ∈ rows) : level.sameEntity a b = .ok (level.isSame a.toCells b.toCells) :=
  owns.sameEntity_toCells (h a ha) (h b hb)

end LevelInfo.ShownIn

/-- The search for an entity among runs is decided run by run. -/
theorem anySameEntity_eq_any {same : Run → Bool} {runs : List Run}
    (h : ∀ run ∈ runs, level.sameEntity run.first row = .ok (same run)) :
    anySameEntity level row runs = .ok (runs.any same) := by
  induction runs with
  | nil => rfl
  | cons run rest ih =>
    rw [List.forall_mem_cons] at h
    rw [anySameEntity, h.1, ok_bind, ih h.2, List.any_cons]
    cases same run <;> rfl

/-! ## Runs of rows -/

namespace Runs.Splits

variable {s : Runs}

/-- The runs so far are those of the rows so far. -/
theorem map_rows (h : s.Splits level id before) :
    s.toList.map Run.rows = level.runs Row.toCells before := by
  have hrows := h.rows_eq
  rwa [List.map_id_fun, List.map_id] at hrows

/-- A run is a block of the rows that were added. -/
theorem mem_blocks (h : s.Splits level id before) {run : Run} (hrun : run ∈ s.toList) :
    run.rows ∈ level.blocks Row.toCells before := by
  have hmem : run.rows ∈ s.toList.map Run.rows := List.mem_map_of_mem hrun
  rw [h.map_rows] at hmem
  exact List.mem_of_mem_filter hmem

theorem mem_of_mem_run (h : s.Splits level id before) {run : Run} (hrun : run ∈ s.toList)
    {a : Row} (ha : a ∈ run.rows) : a ∈ before := by
  rw [← level.flatten_blocks Row.toCells before]
  exact List.mem_flatten_of_mem (h.mem_blocks hrun) ha

/-- The rows of a run are of one entity. -/
theorem isSame_of_mem_run (h : s.Splits level id before) {run : Run} (hrun : run ∈ s.toList)
    {a : Row} (ha : a ∈ run.rows) : level.isSame run.first.toCells a.toCells = true :=
  (level.isEquivalence_cells Row.toCells).of_mem_splitBy (h.mem_blocks hrun) _ List.mem_cons_self
    a ha

/-- A row that shows the level is in a run. -/
theorem exists_run (h : s.Splits level id before) (owns : Level.Owns level children) {a : Row}
    (ha : a ∈ before) (hpresent : level.isPresentIn a.toCells = true) :
    ∃ run ∈ s.toList, a ∈ run.rows := by
  have hflatten := (LevelInfo.shares_runs owns Row.toCells before).flatten_eq
  have hmem : a ∈ (s.toList.map Run.rows).flatten := by
    rw [h.map_rows, hflatten]
    exact List.mem_filter.2 ⟨ha, hpresent⟩
  obtain ⟨part, hpart, hmem⟩ := List.mem_flatten.1 hmem
  obtain ⟨run, hrun, rfl⟩ := List.mem_map.1 hpart
  exact ⟨run, hrun, hmem⟩

/-- **The last run** is the last block, and those before it are the runs before. -/
theorem exists_blocks {closed : List Run} {run : Run} (owns : Level.Owns level children)
    (h : Splits level id before ⟨closed, some run⟩) :
    ∃ blocks : List (List Row), level.blocks Row.toCells before = blocks ++ [run.rows] ∧
      closed.reverse.map Run.rows =
        blocks.filter fun block => block.any fun a => level.isPresentIn a.toCells := by
  obtain ⟨x, hx, (hsame : level.isSame run.first.toCells x.toCells = true)⟩ :=
    h.current_some run rfl
  have hrun : run ∈ toList ⟨closed, some run⟩ := by simp [toList_some]
  have hne : before ≠ [] := List.ne_nil_of_mem (List.mem_of_mem_getLast? hx)
  obtain ⟨blocks, block, hblock, hsplit, hlast⟩ :=
    exists_splitBy_concat (fun a b => level.isSame (Row.toCells a) (Row.toCells b)) hne
  rw [List.getLast?_eq_some_getLast hne, Option.mem_some_iff, ← hlast] at hx
  -- The last row shows the entity of the last run, so the last block shows the level.
  have hpresent : level.isPresentIn x.toCells = true := by
    rw [← owns.isPresentIn_eq hsame]
    exact LevelInfo.present_of_mem_runs owns (h.map_rows ▸ List.mem_map_of_mem hrun)
      List.mem_cons_self
  have hany : (block.any fun a => level.isPresentIn a.toCells) = true :=
    List.any_eq_true.2 ⟨x, hx ▸ List.getLast_mem hblock, hpresent⟩
  have hrows := h.map_rows
  rw [toList_some, List.map_append, LevelInfo.runs, LevelInfo.blocks, hsplit, List.filter_append,
    List.filter_singleton, hany] at hrows
  obtain ⟨hclosed, hrun⟩ := List.append_inj' hrows rfl
  obtain rfl : run.rows = block := by simpa using hrun
  exact ⟨blocks, hsplit, hclosed⟩

end Runs.Splits

/-! ## One more row -/

namespace Runs

variable {s : Runs}

/-- A row of an entity with a key that is shown by an earlier run is not one of the last run, if a
row between the two does not show the entity. -/
theorem Splits.differs_from_current (owns : Level.Owns level children)
    (h : s.Splits level id before) {start between : List Row} {earlier other : Row}
    (hbefore : before = start ++ earlier :: between) (hother : other ∈ between)
    (hkey : level.isKeyedIn row.toCells = true)
    (hsame : level.isSame earlier.toCells row.toCells = true)
    (hdiffers : level.isSame other.toCells row.toCells = false) :
    ∀ run ∈ s.current, level.isSame run.first.toCells row.toCells = false := by
  intro run hrun
  obtain ⟨closed, current⟩ := s
  obtain rfl : current = some run := hrun
  rw [Bool.eq_false_iff]
  intro hrow
  have hequiv := level.isEquivalence_isSame
  obtain ⟨blocks, hblocks, hclosed⟩ := h.exists_blocks owns
  have hcurrent : run ∈ toList ⟨closed, some run⟩ := by simp [toList_some]
  have hnot : other ∉ run.rows := fun hmem => by
    have hsame' := hequiv.trans (hequiv.symm (h.isSame_of_mem_run hcurrent hmem)) hrow
    rw [hdiffers] at hsame'
    cases hsame'
  -- So the last run lies behind the earlier row.
  have hearlier : earlier ∈ blocks.flatten := by
    have hflatten : blocks.flatten ++ run.rows = start ++ earlier :: between := by
      rw [← hbefore, ← List.flatten_concat, ← hblocks, level.flatten_blocks]
    obtain ⟨rest, hstart, hrows⟩ | ⟨rest, hblocks, hrows⟩ := List.append_eq_append_iff.1 hflatten
    · exact absurd (hrows ▸ by simp [hother]) hnot
    · cases rest with
      | nil =>
        rw [List.nil_append] at hrows
        exact absurd (hrows ▸ List.mem_cons_of_mem _ hother) hnot
      | cons first rest =>
        obtain ⟨rfl, -⟩ := List.cons_eq_cons.1 hrows
        simp [hblocks]
  have hpresent : level.isPresentIn earlier.toCells = true := by
    rw [owns.isPresentIn_eq hsame]
    exact owns.isPresentIn_of_isKeyedIn hkey
  obtain ⟨block, hblock, hmem⟩ := List.mem_flatten.1 hearlier
  have hshown : block ∈ closed.reverse.map Run.rows := by
    rw [hclosed, List.mem_filter]
    exact ⟨hblock, List.any_eq_true.2 ⟨earlier, hmem, hpresent⟩⟩
  obtain ⟨former, hformer, rfl⟩ := List.mem_map.1 hshown
  -- The run of the earlier row and the last one then show one entity with a key.
  have hkeyed := h.keyed
  rw [toList_some, List.pairwise_append] at hkeyed
  have hfirst : level.isSame former.first.toCells row.toCells = true :=
    hequiv.trans (h.isSame_of_mem_run (by simp [toList_some, hformer]) hmem) hsame
  have hkey' {cells : Cells} (hcells : level.isSame cells row.toCells = true) :
      level.isKeyedIn cells = true := (LevelInfo.isSame_iff.1 hcells).1.trans hkey
  have hapart := hkeyed.2.2 former hformer run (List.mem_singleton_self run) (hkey' hfirst)
    (hkey' hrow)
  rw [hequiv.trans hfirst (hequiv.symm hrow)] at hapart
  cases hapart

theorem mem_toList_of_current {run : Run} (h : run ∈ s.current) : run ∈ s.toList := by
  obtain ⟨closed, current⟩ := s
  obtain rfl : current = some run := h
  simp [toList_some]

/-- A row without the level closes the run, unless it shows a level below. -/
theorem add_of_absent {below : Bool} (hpresent : level.isPresent row = .ok false)
    (hsubtree : level.isSubtreePresent row = .ok below) :
    s.add level row = if below then .error (.entityAbsent level.role.label) else .ok s.close := by
  cases below <;> simp [Runs.add, hpresent, hsubtree]

/-- A row of the entity that is open goes to its run. -/
theorem add_of_same {run : Run} (hpresent : level.isPresent row = .ok true)
    (hcurrent : run ∈ s.current) (hsame : level.sameEntity run.first row = .ok true) :
    s.add level row = .ok { s with current := some (run.add row) } := by
  have hcurrent : s.current = some run := hcurrent
  simp [Runs.add, hpresent, hcurrent, hsame]

/-- A row of another entity starts a run. -/
theorem add_of_other (hpresent : level.isPresent row = .ok true)
    (hother : ∀ run ∈ s.current, level.sameEntity run.first row = .ok false) :
    s.add level row = s.start level row := by
  cases hcurrent : s.current with
  | none => simp [Runs.add, hpresent, hcurrent]
  | some run => simp [Runs.add, hpresent, hcurrent, hother run hcurrent]

/-- No run is started for a key that another run has. -/
theorem start_eq_error_iff {keyed found : Bool} (hkey : level.hasKey row = .ok keyed)
    (hfound : anySameEntity level row s.toList = .ok found) : s.start level row = .error e ↔
      keyed = true ∧ found = true ∧ .entityReappeared level.role.label = e := by
  have hfound : anySameEntity level row s.close.closedReversed.reverse = .ok found := hfound
  cases keyed <;> cases found <;> simp [Runs.start, hkey, hfound]

/-- A run that has ended has a row behind it that does not show its entity. -/
theorem Splits.exists_other (h : s.Splits level id before) {run : Run} (hrun : run ∈ s.toList)
    (hlast : ∀ x ∈ before.getLast?, level.isSame run.first.toCells x.toCells = false) :
    ∃ start between other, before = start ++ run.first :: between ∧ other ∈ between ∧
      level.isSame run.first.toCells other.toCells = false := by
  obtain ⟨former, later, hsplit⟩ := List.append_of_mem (h.mem_blocks hrun)
  have hbefore : before = former.flatten ++ run.rows ++ later.flatten := by
    rw [← level.flatten_blocks Row.toCells before, hsplit, List.flatten_append, List.flatten_cons,
      List.append_assoc]
  cases hlater : later.flatten with
  | nil =>
    have hne : run.rows ≠ [] := List.cons_ne_nil _ _
    have hmem : run.rows.getLast hne ∈ before.getLast? := by
      simp [hbefore, hlater, List.getLast?_eq_some_getLast hne]
    have hsame := h.isSame_of_mem_run hrun (List.getLast_mem hne)
    rw [hlast _ hmem] at hsame
    cases hsame
  | cons other rest =>
    have hother := not_related_after (level.isEquivalence_cells Row.toCells) hsplit other
      (by simp [hlater]) run.first List.mem_cons_self
    refine ⟨former.flatten, run.laterReversed.reverse ++ other :: rest, other, ?_, by simp, ?_⟩
    · rw [hbefore, hlater, Run.rows, List.append_assoc, List.cons_append]
    · rw [Bool.eq_false_iff] at hother ⊢
      exact fun hsame => hother (level.isEquivalence_isSame.symm hsame)

section

variable (owns : Level.Owns level children) (h : s.Splits level id before)
  (hshown : level.ShownIn (before ++ [row]))

include owns h hshown

theorem Splits.sameEntity_first {run : Run} (hrun : run ∈ s.toList) :
    level.sameEntity run.first row = .ok (level.isSame run.first.toCells row.toCells) :=
  hshown.sameEntity_eq owns (List.mem_append_left _ (h.mem_of_mem_run hrun List.mem_cons_self))
    (List.mem_append_right _ (List.mem_singleton_self row))

theorem Splits.anySameEntity_toList : anySameEntity level row s.toList =
    .ok (s.toList.any fun run => level.isSame run.first.toCells row.toCells) :=
  anySameEntity_eq_any fun _ => h.sameEntity_first owns hshown

/-- A row with an earlier entity offends if it is not one of the last run. -/
theorem Splits.offends_of_start (hpresent : level.isPresent row = .ok true)
    (hother : ∀ run ∈ s.current, level.sameEntity run.first row = .ok false)
    (hstart : s.start level row = .error e) : level.Offends before row e := by
  have hequiv := level.isEquivalence_isSame
  have hrow : row ∈ before ++ [row] := by simp
  have hkey := hshown.hasKey_eq owns hrow
  obtain ⟨hkeyed, hfound, rfl⟩ :=
    (start_eq_error_iff hkey (h.anySameEntity_toList owns hshown)).1 hstart
  obtain ⟨run, hrun, hsame⟩ := List.any_eq_true.1 hfound
  have hlast : ∀ x ∈ before.getLast?, level.isSame run.first.toCells x.toCells = false := by
    intro x hx
    have hdiffers : level.isSame x.toCells row.toCells = false :=
      h.differs owns hpresent hother x hx
    rw [Bool.eq_false_iff] at hdiffers ⊢
    exact fun hfirst => hdiffers (hequiv.trans (hequiv.symm hfirst) hsame)
  obtain ⟨start, between, other, hbefore, hmem, hdiffers⟩ := h.exists_other hrun hlast
  refine .again (hkeyed ▸ hkey) hbefore ?_ hmem (.inr ?_)
  · rw [h.sameEntity_first owns hshown hrun, hsame]
  · rw [hshown.sameEntity_eq owns (by simp [hbefore, hmem]) hrow, Except.ok.injEq]
    rw [Bool.eq_false_iff] at hdiffers ⊢
    exact fun hother => hdiffers (hequiv.trans hsame (hequiv.symm hother))

/-- **What a row that is refused offends against.** -/
theorem Splits.offends_of_add (hadd : s.add level row = .error e) :
    level.Offends before row e := by
  have hrow : row ∈ before ++ [row] := by simp
  have hpresent := hshown.isPresent_eq owns hrow
  have hsubtree := hshown.isSubtreePresent_eq hrow
  cases hshows : level.isPresentIn row.toCells with
  | false =>
    rw [hshows] at hpresent
    rw [add_of_absent hpresent hsubtree] at hadd
    cases hbelow : level.isSubtreePresentIn row.toCells with
    | false =>
      rw [hbelow] at hadd
      cases hadd
    | true =>
      rw [hbelow] at hadd hsubtree
      cases hadd
      exact .alone hpresent hsubtree
  | true =>
    rw [hshows] at hpresent
    have hother : ∀ run ∈ s.current, level.sameEntity run.first row = .ok false := by
      intro run hrun
      have hsame := h.sameEntity_first owns hshown (mem_toList_of_current hrun)
      cases hfirst : level.isSame run.first.toCells row.toCells with
      | false => rw [hsame, hfirst]
      | true =>
        rw [add_of_same hpresent hrun (hfirst ▸ hsame)] at hadd
        cases hadd
    rw [add_of_other hpresent hother] at hadd
    exact h.offends_of_start owns hshown hpresent hother hadd

/-- **A row that offends is refused.** -/
theorem Splits.add_of_offends (hoffends : level.Offends before row e) :
    s.add level row = .error e := by
  have hrow : row ∈ before ++ [row] := by simp
  cases hoffends with
  | alone hpresent hsubtree => rw [add_of_absent hpresent hsubtree, if_pos rfl]
  | @again start between earlier other hkey hbefore hsame hother hdiffers =>
    have hkeyed := LevelInfo.hasKey_of_ok hkey
    have hpresent := owns.isPresentIn_of_isKeyedIn hkeyed
    have hsame := LevelInfo.sameEntity_of_ok hsame
    have hdiffers : level.isSame other.toCells row.toCells = false := by
      rcases hdiffers with habsent | hdiffers
      · rw [Bool.eq_false_iff]
        intro hsame
        have habsent := LevelInfo.isPresent_of_ok habsent
        rw [owns.isPresentIn_eq hsame, hpresent] at habsent
        cases habsent
      · exact LevelInfo.sameEntity_of_ok hdiffers
    -- The open run, if any, is of the entity between, so the row would start a run that there is.
    have hcurrent : ∀ run ∈ s.current, level.sameEntity run.first row = .ok false := by
      intro run hrun
      rw [h.sameEntity_first owns hshown (mem_toList_of_current hrun),
        h.differs_from_current owns hbefore hother hkeyed hsame hdiffers run hrun]
    obtain ⟨run, hrun, hmem⟩ := h.exists_run owns (a := earlier) (by simp [hbefore])
      ((owns.isPresentIn_eq hsame).trans hpresent)
    have hfound : (s.toList.any fun run => level.isSame run.first.toCells row.toCells) = true :=
      List.any_eq_true.2 ⟨run, hrun, LevelInfo.isSame_trans (h.isSame_of_mem_run hrun hmem) hsame⟩
    rw [add_of_other (hpresent ▸ hshown.isPresent_eq owns hrow) hcurrent,
      start_eq_error_iff hkey (h.anySameEntity_toList owns hshown)]
    exact ⟨rfl, hfound, rfl⟩

/-- **A row is refused just if it offends** against the rows before it. -/
theorem Splits.add_eq_error_iff : s.add level row = .error e ↔ level.Offends before row e :=
  ⟨h.offends_of_add owns hshown, h.add_of_offends owns hshown⟩

end

end Runs

/-! ## All rows -/

/-- Rows that were added are split into runs. -/
theorem splits_of_foldlM {s : Runs} (owns : Level.Owns level children)
    (h : rows.foldlM (Runs.add level) Runs.none = .ok s) : s.Splits level id rows := by
  have hfold : (rows.map id).foldlM (Runs.add level) Runs.none = .ok s := by rwa [List.map_id]
  exact (Runs.splits_none level id).foldlM owns hfold

/-- Only adding a row can fail. -/
theorem entityRuns_eq_error_iff_foldlM : entityRuns level rows = .error e ↔
    rows.foldlM (Runs.add level) Runs.none = .error e := by
  rw [entityRuns]
  cases rows.foldlM (Runs.add level) Runs.none <;> simp

/-- **Adding rows fails at the first one that offends**, with its error. -/
theorem foldlM_eq_error_iff_offends (owns : Level.Owns level children)
    (hshown : level.ShownIn rows) : rows.foldlM (Runs.add level) Runs.none = .error e ↔
      ∃ before row after s, rows = before ++ row :: after ∧
        before.foldlM (Runs.add level) Runs.none = .ok s ∧ level.Offends before row e := by
  rw [foldlM_eq_error_iff]
  refine exists_congr fun before => exists_congr fun row => exists_congr fun after =>
    exists_congr fun s => and_congr_right fun hrows => and_congr_right fun hfold => ?_
  have hprefix : rows = before ++ [row] ++ after := hrows.trans (List.append_cons _ _ _)
  refine (splits_of_foldlM owns hfold).add_eq_error_iff owns (hshown.of_subset ?_)
  exact hprefix ▸ List.subset_append_left _ _

/-- **Rows are split just if none of them offends.** -/
theorem exists_foldlM_iff (owns : Level.Owns level children) (hshown : level.ShownIn rows) :
    (∃ s, rows.foldlM (Runs.add level) Runs.none = .ok s) ↔ level.IsOrderly rows := by
  constructor
  · rintro ⟨s, hs⟩ before row after e hrows hoffends
    have hbefore := hs
    rw [hrows, List.foldlM_append] at hbefore
    obtain ⟨s', hbefore, -⟩ := bind_eq_ok_iff.1 hbefore
    have hrefused := (foldlM_eq_error_iff_offends owns hshown).2
      ⟨before, row, after, s', hrows, hbefore, hoffends⟩
    cases hs.symm.trans hrefused
  · intro horderly
    cases hfold : rows.foldlM (Runs.add level) Runs.none with
    | ok s => exact ⟨s, rfl⟩
    | error e =>
      obtain ⟨before, row, after, -, hrows, -, hoffends⟩ :=
        (foldlM_eq_error_iff_offends owns hshown).1 hfold
      exact absurd hoffends (horderly before row after e hrows)

/-- **Splitting fails for the first row that offends.** -/
theorem entityRuns_eq_error_iff (owns : Level.Owns level children) (hshown : level.ShownIn rows) :
    entityRuns level rows = .error e ↔ ∃ before row after, rows = before ++ row :: after ∧
      level.Offends before row e ∧ level.IsOrderly before := by
  rw [entityRuns_eq_error_iff_foldlM, foldlM_eq_error_iff_offends owns hshown]
  refine exists_congr fun before => exists_congr fun row => exists_congr fun after => ?_
  rw [exists_and_left]
  refine and_congr_right fun hrows => ?_
  have hbefore : level.ShownIn before := hshown.of_subset (hrows ▸ List.subset_append_left _ _)
  rw [exists_and_right, exists_foldlM_iff owns hbefore, and_comm]

/-- **Splitting fails just if a row offends.** -/
theorem exists_entityRuns_error_iff (owns : Level.Owns level children)
    (hshown : level.ShownIn rows) :
    (∃ e, entityRuns level rows = .error e) ↔ ¬ level.IsOrderly rows := by
  simp only [entityRuns_eq_error_iff_foldlM, ← exists_foldlM_iff owns hshown]
  cases rows.foldlM (Runs.add level) Runs.none <;> simp

end QueryPlans
