import QueryPlans.Proofs.Layout.Reading
import QueryPlans.Proofs.Materializer

/-!
# Proofs/Ownership/Runs — which rows the runs of a level are

Whatever rows a level is split on, the runs that come out are the blocks of neighbouring rows that
show one entity; rows without the level end a block and belong to none (`entityRuns_ok`).  So the
runs together are the rows that show the level, in order (`LevelInfo.shares_runs`).  That splitting
succeeds also says that no row shows something below the level without the level itself, and that no
two runs have one key.

Rows are taken from a list of any type, so that they can be told apart by their positions.
-/

namespace QueryPlans

variable {α : Type}

/-! ## Runs as blocks -/

namespace LevelInfo

variable (level : LevelInfo) (cells : α → Cells)

/-- The blocks of neighbouring rows that agree in the level. -/
def blocks (as : List α) : List (List α) := as.splitBy fun a b => level.isSame (cells a) (cells b)

/-- **The runs of a level**: the blocks on which it is present. -/
def runs (as : List α) : List (List α) :=
  (level.blocks cells as).filter fun block => block.any fun a => level.isPresentIn (cells a)

/-- **How rows are shared out** among the entities of a level: each entity has a block of rows that
show it, and together they have the rows on which the level is present, in order. -/
structure Shares (owned : List α) (parts : List (List α)) : Prop where
  flatten_eq : parts.flatten = owned.filter fun a => level.isPresentIn (cells a)
  ne_nil : ∀ part ∈ parts, part ≠ []
  infix_of_mem : ∀ part ∈ parts, part <:+: owned
  same_of_mem : ∀ part ∈ parts, ∀ a ∈ part, ∀ b ∈ part, level.isSame (cells a) (cells b) = true

variable {level cells} {children : List Level} {as block : List α} {a x : α}

theorem isEquivalence_cells (level : LevelInfo) (cells : α → Cells) :
    IsEquivalence fun a b => level.isSame (cells a) (cells b) :=
  level.isEquivalence_isSame.comap cells

/-- A block shows the level when one of its rows does. -/
theorem any_eq_of_mem_blocks (owns : Level.Owns level children)
    (hblock : block ∈ level.blocks cells as) (hx : x ∈ block) :
    (block.any fun a => level.isPresentIn (cells a)) = level.isPresentIn (cells x) := by
  have hsame := (level.isEquivalence_cells cells).of_mem_splitBy hblock
  rw [Bool.eq_iff_iff, List.any_eq_true]
  constructor
  · rintro ⟨a, ha, hpresent⟩
    rwa [← owns.isPresentIn_eq (hsame a ha x hx)]
  · exact fun hpresent => ⟨x, hx, hpresent⟩

/-- All rows of a run show the level: a row that does not is a block of its own, and no run. -/
theorem present_of_mem_runs (owns : Level.Owns level children)
    (hblock : block ∈ level.runs cells as) (hx : x ∈ block) :
    level.isPresentIn (cells x) = true := by
  obtain ⟨hblock, hany⟩ := List.mem_filter.1 hblock
  rwa [any_eq_of_mem_blocks owns hblock hx] at hany

/-- Blocks that show a level, joined, are the rows that show it. -/
theorem flatten_filter_any {p : α → Bool} {blocks : List (List α)}
    (h : ∀ block ∈ blocks, ∀ x ∈ block, block.any p = p x) :
    (blocks.filter fun block => block.any p).flatten = blocks.flatten.filter p := by
  induction blocks with
  | nil => rfl
  | cons block rest ih =>
    rw [List.forall_mem_cons] at h
    rw [List.flatten_cons, List.filter_append, ← ih h.2, List.filter_cons]
    cases hany : block.any p with
    | false =>
      have hnone : block.filter p = [] := List.filter_eq_nil_iff.2 fun x hx => by
        rw [← h.1 x hx, hany]
        exact Bool.false_ne_true
      rw [hnone]
      rfl
    | true =>
      have hall : block.filter p = block := List.filter_eq_self.2 fun x hx => by
        rw [← h.1 x hx, hany]
      rw [hall]
      rfl

theorem flatten_blocks (level : LevelInfo) (cells : α → Cells) (as : List α) :
    (level.blocks cells as).flatten = as := List.flatten_splitBy _ as

/-- **Runs share out their rows.** -/
theorem shares_runs (owns : Level.Owns level children) (cells : α → Cells) (as : List α) :
    level.Shares cells as (level.runs cells as) where
  flatten_eq := by
    rw [runs, flatten_filter_any fun _ hblock _ hx => any_eq_of_mem_blocks owns hblock hx,
      flatten_blocks]
  ne_nil part hpart := List.ne_nil_of_mem_splitBy (List.mem_of_mem_filter hpart)
  infix_of_mem part hpart := by
    have hinfix := List.infix_of_mem_flatten (List.mem_of_mem_filter hpart)
    rwa [flatten_blocks] at hinfix
  same_of_mem part hpart :=
    (level.isEquivalence_cells cells).of_mem_splitBy (List.mem_of_mem_filter hpart)

/-! ## One more row -/

/-- A row that differs from the last begins a block. -/
theorem blocks_concat_of_other
    (hother : ∀ x ∈ as.getLast?, level.isSame (cells x) (cells a) = false) :
    level.blocks cells (as ++ [a]) = level.blocks cells as ++ [[a]] :=
  List.splitBy_append_cons [] hother

/-- A row that agrees with the last joins its block. -/
theorem blocks_concat_of_same (hlast : x ∈ as.getLast?)
    (hsame : level.isSame (cells x) (cells a) = true) :
    ∃ before block, level.blocks cells as = before ++ [block] ∧ x ∈ block ∧
      level.blocks cells (as ++ [a]) = before ++ [block ++ [a]] := by
  have hne : as ≠ [] := by
    rintro rfl
    cases hlast
  obtain ⟨before, block, hblock, hsplit, hend⟩ :=
    exists_splitBy_concat (fun a b => level.isSame (cells a) (cells b)) hne
  rw [List.getLast?_eq_some_getLast hne, Option.mem_some_iff, ← hend] at hlast
  subst hlast
  refine ⟨before, block, hsplit, List.getLast_mem hblock, ?_⟩
  rw [blocks, splitBy_concat, hsplit, growLast_concat, List.getLast?_eq_some_getLast hblock,
    Option.any_some, hsame, if_pos rfl]

/-- A row without the level belongs to no run. -/
theorem runs_concat_of_absent (cells : α → Cells) (owns : Level.Owns level children)
    (habsent : level.isPresentIn (cells a) = false) :
    level.runs cells (as ++ [a]) = level.runs cells as := by
  by_cases hother : ∀ x ∈ as.getLast?, level.isSame (cells x) (cells a) = false
  · rw [runs, blocks_concat_of_other hother, List.filter_append, runs]
    simp [habsent]
  · push Not at hother
    obtain ⟨x, hx, hsame⟩ := hother
    rw [Bool.ne_false_iff] at hsame
    obtain ⟨before, block, hblocks, hmem, hconcat⟩ := blocks_concat_of_same hx hsame
    have hany := any_eq_of_mem_blocks owns
      (hblocks ▸ List.mem_append_right _ (List.mem_singleton_self block)) hmem
    rw [owns.isPresentIn_eq hsame, habsent] at hany
    rw [runs, hconcat, runs, hblocks, List.filter_append, List.filter_append]
    simp [hany, habsent]

/-- A row of another entity begins a run. -/
theorem runs_concat_of_other (cells : α → Cells) (hpresent : level.isPresentIn (cells a) = true)
    (hother : ∀ x ∈ as.getLast?, level.isSame (cells x) (cells a) = false) :
    level.runs cells (as ++ [a]) = level.runs cells as ++ [[a]] := by
  rw [runs, blocks_concat_of_other hother, List.filter_append, runs]
  simp [hpresent]

/-- A row of the same entity joins the last run. -/
theorem runs_concat_of_same (cells : α → Cells) (owns : Level.Owns level children)
    (hpresent : level.isPresentIn (cells a) = true) (hlast : x ∈ as.getLast?)
    (hsame : level.isSame (cells x) (cells a) = true) :
    ∃ before run, level.runs cells as = before ++ [run] ∧
      level.runs cells (as ++ [a]) = before ++ [run ++ [a]] := by
  obtain ⟨before, block, hblocks, hmem, hconcat⟩ := blocks_concat_of_same hlast hsame
  have hany := any_eq_of_mem_blocks owns
    (hblocks ▸ List.mem_append_right _ (List.mem_singleton_self block)) hmem
  rw [owns.isPresentIn_eq hsame, hpresent] at hany
  refine ⟨before.filter fun block => block.any fun a => level.isPresentIn (cells a), block, ?_, ?_⟩
  · rw [runs, hblocks, List.filter_append]
    simp [hany]
  · rw [runs, hconcat, List.filter_append]
    simp [hpresent]

/-- Rows of one entity in front of a row of another are a block. -/
theorem blocks_append (hne : block ≠ [])
    (hsame : ∀ x ∈ block, ∀ y ∈ block, level.isSame (cells x) (cells y) = true)
    (hother : ∀ x ∈ block, ∀ y ∈ as.head?, level.isSame (cells x) (cells y) = false) :
    level.blocks cells (block ++ as) = block :: level.blocks cells as := by
  have hblock : block.splitBy (fun a b => level.isSame (cells a) (cells b)) = [block] :=
    List.splitBy_of_isChain hne (List.pairwise_of_forall_mem_list hsame).isChain
  have hapart : ∀ x ∈ block.getLast?, ∀ y ∈ as.head?, level.isSame (cells x) (cells y) = false :=
    fun x hx => hother x (List.mem_of_mem_getLast? hx)
  rw [blocks, List.splitBy_append hapart, hblock, List.singleton_append, blocks]

/-- Rows of one entity in front of a row of another are a run. -/
theorem runs_append (hne : block ≠ []) (hpresent : ∀ x ∈ block, level.isPresentIn (cells x) = true)
    (hsame : ∀ x ∈ block, ∀ y ∈ block, level.isSame (cells x) (cells y) = true)
    (hother : ∀ x ∈ block, ∀ y ∈ as.head?, level.isSame (cells x) (cells y) = false) :
    level.runs cells (block ++ as) = block :: level.runs cells as := by
  have hany : (block.any fun a => level.isPresentIn (cells a)) = true := by
    obtain ⟨x, hx⟩ := List.exists_mem_of_ne_nil block hne
    exact List.any_eq_true.2 ⟨x, hx, hpresent x hx⟩
  rw [runs, blocks_append hne hsame hother, List.filter_cons, if_pos hany, runs]

end LevelInfo

/-! ## The materializer's runs -/

/-- The cells of rows that come from elsewhere. -/
abbrev cellsOf (rowOf : α → Row) (a : α) : Cells := (rowOf a).toCells

/-- **What a row does to the runs** before it. -/
inductive Runs.Added (level : LevelInfo) (row : Row) (s : Runs) : Runs → Prop
  | absent (hpresent : level.isPresent row = .ok false)
    (hsubtree : level.isSubtreePresent row = .ok false) : Added level row s s.close
  | same {run : Run} (hpresent : level.isPresent row = .ok true) (hcurrent : s.current = some run)
    (hsame : level.sameEntity run.first row = .ok true) :
    Added level row s { s with current := some (run.add row) }
  | other {keyed : Bool} (hpresent : level.isPresent row = .ok true)
    (hother : ∀ run ∈ s.current, level.sameEntity run.first row = .ok false)
    (hkey : level.hasKey row = .ok keyed)
    (hnew : keyed = true →
      ∀ run ∈ s.close.closedReversed, level.sameEntity run.first row = .ok false) :
    Added level row s ⟨s.close.closedReversed, some (.ofRow row)⟩

/-- A search that finds nothing has looked at every run. -/
theorem sameEntity_of_anySameEntity {level : LevelInfo} {row : Row} {runs : List Run}
    (h : anySameEntity level row runs = .ok false) :
    ∀ run ∈ runs, level.sameEntity run.first row = .ok false := by
  induction runs with
  | nil => simp
  | cons run rest ih =>
    rw [anySameEntity] at h
    obtain ⟨same, hsame, h⟩ := bind_eq_ok_iff.1 h
    cases same with
    | true => cases h
    | false => exact List.forall_mem_cons.2 ⟨hsame, ih h⟩

/-- Where a run may start, it has been added. -/
theorem Runs.added_of_start {level : LevelInfo} {row : Row} {s s' : Runs}
    (hpresent : level.isPresent row = .ok true)
    (hother : ∀ run ∈ s.current, level.sameEntity run.first row = .ok false)
    (h : s.start level row = .ok s') : s.Added level row s' := by
  obtain ⟨keyed, hkey, h⟩ := bind_eq_ok_iff.1 h
  cases keyed with
  | false =>
    cases h
    exact .other hpresent hother hkey (by simp)
  | true =>
    obtain ⟨found, hfound, h⟩ := bind_eq_ok_iff.1 h
    cases found with
    | true => cases h
    | false =>
      cases h
      refine .other hpresent hother hkey fun _ run hrun => ?_
      exact sameEntity_of_anySameEntity hfound run (List.mem_reverse.2 hrun)

/-- **What adding a row can do**: the row goes to the open run, starts one, or closes it. -/
theorem Runs.add_cases {level : LevelInfo} {row : Row} {s s' : Runs}
    (h : s.add level row = .ok s') : s.Added level row s' := by
  obtain ⟨present, hpresent, h⟩ := bind_eq_ok_iff.1 h
  cases present with
  | false =>
    obtain ⟨subtree, hsubtree, h⟩ := bind_eq_ok_iff.1 h
    cases subtree with
    | true => cases h
    | false =>
      cases h
      exact .absent hpresent hsubtree
  | true =>
    rw [if_pos rfl] at h
    cases hcurrent : s.current with
    | none =>
      rw [hcurrent] at h
      exact added_of_start hpresent (by simp [hcurrent]) h
    | some run =>
      rw [hcurrent] at h
      obtain ⟨same, hsame, h⟩ := bind_eq_ok_iff.1 h
      cases same with
      | true =>
        cases h
        exact .same hpresent hcurrent hsame
      | false => exact added_of_start hpresent (by simpa [hcurrent] using hsame) h

namespace Runs

theorem toList_close (s : Runs) : s.close.toList = s.toList := rfl

theorem toList_some (closed : List Run) (run : Run) :
    toList ⟨closed, some run⟩ = closed.reverse ++ [run] := by
  simp [toList, close]

/-- **Runs as rows leave them**: the blocks that show the level, of which the last is not closed if
the last row shows it. -/
structure Splits (level : LevelInfo) (rowOf : α → Row) (as : List α) (s : Runs) : Prop where
  rows_eq : s.toList.map Run.rows =
    (level.runs (cellsOf rowOf) as).map (List.map rowOf)
  current_none : s.current = .none → ∀ x ∈ as.getLast?, level.isPresentIn (rowOf x).toCells = false
  current_some : ∀ run ∈ s.current, ∃ x ∈ as.getLast?,
    level.isSame run.first.toCells (rowOf x).toCells = true
  keyed : s.toList.Pairwise fun a b => level.isKeyedIn a.first.toCells = true →
    level.isKeyedIn b.first.toCells = true → level.isSame a.first.toCells b.first.toCells = false
  /-- No row shows something below the level alone. -/
  nested : ∀ a ∈ as, level.isSubtreePresentIn (rowOf a).toCells = true →
    level.isPresentIn (rowOf a).toCells = true

variable {level : LevelInfo} {children : List Level} {rowOf : α → Row} {as before : List α} {a : α}
  {s s' : Runs}

theorem splits_none (level : LevelInfo) (rowOf : α → Row) : Splits level rowOf [] .none where
  rows_eq := rfl
  current_none _ _ hx := by cases hx
  current_some _ hrun := by cases hrun
  keyed := .nil
  nested _ ha := absurd ha List.not_mem_nil

theorem getLast?_concat {x : α} (hx : x ∈ (as ++ [a]).getLast?) : x = a := by
  simpa [eq_comm] using hx

/-- Rows below a level show the level, and so does the one more. -/
theorem nested_concat (h : s.Splits level rowOf as)
    (ha : level.isSubtreePresentIn (rowOf a).toCells = true →
      level.isPresentIn (rowOf a).toCells = true) :
    ∀ x ∈ as ++ [a], level.isSubtreePresentIn (rowOf x).toCells = true →
      level.isPresentIn (rowOf x).toCells = true := by
  rw [List.forall_mem_append, List.forall_mem_singleton]
  exact ⟨h.nested, ha⟩

/-- A row without the level closes the last run. -/
theorem Splits.add_absent (owns : Level.Owns level children) (h : s.Splits level rowOf as)
    (hpresent : level.isPresent (rowOf a) = .ok false)
    (hsubtree : level.isSubtreePresent (rowOf a) = .ok false) :
    s.close.Splits level rowOf (as ++ [a]) := by
  have habsent := LevelInfo.isPresent_of_ok hpresent
  have hnone := LevelInfo.isSubtreePresent_of_ok hsubtree
  exact {
    rows_eq := by
      rw [toList_close, h.rows_eq, LevelInfo.runs_concat_of_absent (cellsOf rowOf) owns habsent]
    current_none := fun _ x hx => getLast?_concat hx ▸ habsent
    current_some := fun _ hrun => by cases hrun
    keyed := h.keyed
    nested := nested_concat h fun hsome => by simp [hnone] at hsome }

/-- A row of the last entity joins its run. -/
theorem Splits.add_same {closed : List Run} {run : Run} (owns : Level.Owns level children)
    (h : Splits level rowOf as ⟨closed, some run⟩) (hpresent : level.isPresent (rowOf a) = .ok true)
    (hsame : level.sameEntity run.first (rowOf a) = .ok true) :
    Splits level rowOf (as ++ [a]) ⟨closed, some (run.add (rowOf a))⟩ := by
  have hequiv := level.isEquivalence_isSame
  have hshown := LevelInfo.isPresent_of_ok hpresent
  have hfirst := LevelInfo.sameEntity_of_ok hsame
  obtain ⟨x, hx, hrun⟩ := h.current_some run rfl
  -- The runs of the rows grow at their end, as the runs of the fold do.
  obtain ⟨init, last, hruns, hconcat⟩ :=
    LevelInfo.runs_concat_of_same (cellsOf rowOf) owns hshown hx
      (hequiv.trans (hequiv.symm hrun) hfirst)
  have hrows := h.rows_eq
  rw [toList_some, hruns, List.map_append, List.map_append] at hrows
  obtain ⟨hclosed, hlast⟩ := List.append_inj' hrows rfl
  have hkeyed := h.keyed
  rw [toList_some] at hkeyed
  exact {
    rows_eq := by
      rw [toList_some, hconcat, List.map_append, List.map_append, hclosed]
      simpa [Run.rows_add] using hlast
    current_none := fun hnone => by cases hnone
    current_some := fun run' hrun' => by
      obtain rfl := Option.some.inj hrun'
      exact ⟨a, by simp, hfirst⟩
    keyed := by
      rw [toList_some]
      simpa [List.pairwise_append, Run.add] using hkeyed
    nested := nested_concat h fun _ => hshown }

/-- A row of another entity than the last differs from the last row, whether that shows the level
or not. -/
theorem Splits.differs (owns : Level.Owns level children) (h : s.Splits level rowOf as)
    (hpresent : level.isPresent (rowOf a) = .ok true)
    (hother : ∀ run ∈ s.current, level.sameEntity run.first (rowOf a) = .ok false) :
    ∀ x ∈ as.getLast?, level.isSame (rowOf x).toCells (rowOf a).toCells = false := by
  intro x hx
  cases hcurrent : s.current with
  | none =>
    rw [Bool.eq_false_iff]
    intro hsame
    have habsent := h.current_none hcurrent x hx
    rw [owns.isPresentIn_eq hsame, LevelInfo.isPresent_of_ok hpresent] at habsent
    cases habsent
  | some run =>
    obtain ⟨x', hx', hrun⟩ := h.current_some run hcurrent
    obtain rfl := Option.mem_unique hx hx'
    rw [← level.isEquivalence_isSame.congr hrun]
    exact LevelInfo.sameEntity_of_ok (hother run hcurrent)

/-- A row of another entity begins a run. -/
theorem Splits.add_other {keyed : Bool} (owns : Level.Owns level children)
    (h : s.Splits level rowOf as) (hpresent : level.isPresent (rowOf a) = .ok true)
    (hother : ∀ run ∈ s.current, level.sameEntity run.first (rowOf a) = .ok false)
    (hkey : level.hasKey (rowOf a) = .ok keyed)
    (hnew : keyed = true →
      ∀ run ∈ s.close.closedReversed, level.sameEntity run.first (rowOf a) = .ok false) :
    Splits level rowOf (as ++ [a]) ⟨s.close.closedReversed, some (.ofRow (rowOf a))⟩ := by
  have hshown := LevelInfo.isPresent_of_ok hpresent
  have hdiffer := h.differs owns hpresent hother
  have hlist : toList ⟨s.close.closedReversed, some (.ofRow (rowOf a))⟩ =
      s.toList ++ [.ofRow (rowOf a)] := toList_some _ _
  exact {
    rows_eq := by
      rw [hlist, List.map_append, h.rows_eq,
        LevelInfo.runs_concat_of_other (cellsOf rowOf) hshown hdiffer, List.map_append]
      rfl
    current_none := fun hnone => by cases hnone
    current_some := fun run hrun => by
      obtain rfl := Option.some.inj hrun
      exact ⟨a, by simp, level.isSame_self _⟩
    keyed := by
      rw [hlist, List.pairwise_append]
      -- A keyed row was compared with every run; the others have no key to repeat.
      refine ⟨h.keyed, List.pairwise_singleton _ _, fun run hrun _ hlast _ hkeyed => ?_⟩
      obtain rfl := List.mem_singleton.1 hlast
      have hkeyed' : keyed = true := (LevelInfo.hasKey_of_ok hkey).symm.trans hkeyed
      exact LevelInfo.sameEntity_of_ok (hnew hkeyed' run (List.mem_reverse.1 hrun))
    nested := nested_concat h fun _ => hshown }

/-- **One more row** leaves runs as it should. -/
theorem Splits.add (owns : Level.Owns level children) (h : s.Splits level rowOf as)
    (hadd : s.add level (rowOf a) = .ok s') : s'.Splits level rowOf (as ++ [a]) := by
  cases add_cases hadd with
  | absent hpresent hsubtree => exact h.add_absent owns hpresent hsubtree
  | @same run hpresent hcurrent hsame =>
    obtain ⟨closed, current⟩ := s
    obtain rfl : current = some run := hcurrent
    exact h.add_same owns hpresent hsame
  | other hpresent hother hkey hnew => exact h.add_other owns hpresent hother hkey hnew

/-- **Rows that are added one after the other** are split further. -/
theorem Splits.foldlM (owns : Level.Owns level children) (h : s.Splits level rowOf before)
    (hfold : (as.map rowOf).foldlM (Runs.add level) s = .ok s') :
    s'.Splits level rowOf (before ++ as) := by
  induction as generalizing before s with
  | nil =>
    cases hfold
    rwa [List.append_nil]
  | cons a rest ih =>
    rw [List.map_cons, List.foldlM_cons] at hfold
    obtain ⟨s'', hadd, hfold⟩ := bind_eq_ok_iff.1 hfold
    rw [List.append_cons]
    exact ih (h.add owns hadd) hfold

end Runs

/-- **Splitting that succeeds** gives the runs of the level. -/
theorem entityRuns_ok {level : LevelInfo} {children : List Level} (owns : Level.Owns level children)
    {rowOf : α → Row} {as : List α} {runs : List Run}
    (h : entityRuns level (as.map rowOf) = .ok runs) :
    ∃ s : Runs, s.toList = runs ∧ s.Splits level rowOf as := by
  obtain ⟨s, hfold, h⟩ := bind_eq_ok_iff.1 h
  cases h
  exact ⟨s, rfl, (Runs.splits_none level rowOf).foldlM owns hfold⟩

end QueryPlans
