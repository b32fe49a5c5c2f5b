import QueryPlans.EventReader
import QueryPlans.Proofs.Layout.WellFormed
import QueryPlans.Proofs.Materializer

/-!
# Proofs/Outcome/Faults — why rows cannot be read

Building an entry fails because of what a row has or does not have, or because of how entities
follow one another; never because of how many rows there are (`Level.onlyFails_build`).  The same
goes for placing a row among open elements (`Layout.comesToOpen_placeRow`).  A column that is out of
range is a column of the layout, and one of the rows does not have it.
-/

namespace QueryPlans

/-- **Faults in what rows show**, with the columns that are read and the rows they are read from. -/
inductive ReadError.IsOfRows (C : Nat → Prop) (R : Row → Prop) : ReadError → Prop
  | columnOutOfRange {column : Nat} {row : Row} (hcolumn : C column) (hrow : R row)
    (hwidth : row.width ≤ column) : IsOfRows C R (.columnOutOfRange column row.width)
  | rootAbsent : IsOfRows C R .rootAbsent
  | entityAbsent (label : String) : IsOfRows C R (.entityAbsent label)
  | severalEntities (label : String) (count : Nat) : IsOfRows C R (.severalEntities label count)
  | secondEntity (label : String) : IsOfRows C R (.secondEntity label)
  | entityReappeared (label : String) : IsOfRows C R (.entityReappeared label)
  | navigationResumed (label : String) : IsOfRows C R (.navigationResumed label)

open ReadError (IsOfRows)

variable {C : Nat → Prop} {R : Row → Prop}

/-! ## Columns -/

/-- **A level that reads columns**, and none but those. -/
structure LevelInfo.Within (C : Nat → Prop) (level : LevelInfo) : Prop where
  property : ∀ property ∈ level.properties, C property.column
  key : ∀ c ∈ level.keyColumns, C c
  own : ∀ c ∈ level.columns, C c
  subtree : ∀ c ∈ level.subtreeColumns, C c

/-- A level that reads none but some columns, as all levels below it do. -/
inductive Level.Within (C : Nat → Prop) : Level → Prop
  | mk {info : LevelInfo} {children : List Level} (root : info.Within C)
    (below : ∀ child ∈ children, Within C child) : Within C (.mk info children)

theorem Level.Within.info {level : Level} (h : level.Within C) : level.info.Within C := by
  cases h with
  | mk root _ => exact root

/-- The columns of any level are some columns. -/
theorem Level.within_any (level : Level) : level.Within fun _ => True := by
  induction level with
  | mk info children ih =>
    exact ⟨⟨fun _ _ => trivial, fun _ _ => trivial, fun _ _ => trivial, fun _ _ => trivial⟩, ih⟩

/-- Levels that own their columns read none but those of the subtree. -/
theorem Level.WellFormed.within {level : Level} (h : level.WellFormed)
    (hsubtree : ∀ c ∈ level.info.subtreeColumns, C c) : level.Within C := by
  induction h with
  | mk owns _ ih =>
    refine ⟨⟨fun property hproperty => ?_, fun c hc => ?_, fun c hc => ?_, hsubtree⟩, ?_⟩
    · exact hsubtree _ (owns.subtree_of_mem (owns.property_mem property hproperty))
    · exact hsubtree c (owns.subtree_of_mem (owns.key_mem c hc))
    · exact hsubtree c (owns.subtree_of_mem hc)
    · exact fun child hchild => ih child hchild fun c hc =>
        hsubtree c (owns.subtree_of_child hchild hc)

/-! ## Rows -/

namespace Row

variable {row a b : Row} {columns : List Nat}

/-- A column is missing where the row is too narrow for it. -/
theorem onlyFails_column (hrow : R row) {c : Nat} (hc : C c) :
    OnlyFails (IsOfRows C R) (row.column c) := by
  rw [column]
  cases hget : row.get? c with
  | some v => exact .ok trivial
  | none => exact .error (.columnOutOfRange hc hrow (List.getElem?_eq_none_iff.1 hget))

/-- A look for a value reads the columns that it looks at. -/
theorem onlyFails_anyPresent (hrow : R row) (hcolumns : ∀ c ∈ columns, C c) :
    OnlyFails (IsOfRows C R) (row.anyPresent columns) := by
  induction columns with
  | nil => exact .ok trivial
  | cons c rest ih =>
    rw [List.forall_mem_cons] at hcolumns
    refine (onlyFails_column hrow hcolumns.1).bind fun v _ => ?_
    split
    · exact ih hcolumns.2
    · exact .ok trivial

/-- A comparison of two rows reads the columns that it compares. -/
theorem onlyFails_sameIn (ha : R a) (hb : R b) (hcolumns : ∀ c ∈ columns, C c) :
    OnlyFails (IsOfRows C R) (a.sameIn b columns) := by
  induction columns with
  | nil => exact .ok trivial
  | cons c rest ih =>
    rw [List.forall_mem_cons] at hcolumns
    refine (onlyFails_column ha hcolumns.1).bind fun v _ =>
      (onlyFails_column hb hcolumns.1).bind fun w _ => ?_
    split
    · exact ih hcolumns.2
    · exact .ok trivial

end Row

open Row

namespace LevelInfo

variable {level : LevelInfo} {row a b : Row}

/-- A comparison by key, or by all values, reads the columns of the level. -/
theorem Within.onlyFails_sameEntity (h : level.Within C) (ha : R a) (hb : R b) :
    OnlyFails (IsOfRows C R) (level.sameEntity a b) := by
  refine (onlyFails_anyPresent ha h.key).bind fun keyed _ =>
    (onlyFails_anyPresent hb h.key).bind fun keyed' _ => ?_
  split
  · exact .ok trivial
  · refine onlyFails_sameIn ha hb ?_
    cases keyed with
    | true => exact h.key
    | false => exact h.own

theorem Within.onlyFails_read (h : level.Within C) (hrow : R row) :
    OnlyFails (IsOfRows C R) (level.read row) :=
  onlyFails_mapM fun property hproperty =>
    (onlyFails_column hrow (h.property property hproperty)).bind fun _ _ => .ok trivial

end LevelInfo

/-! ## Runs -/

/-- A run of rows as a predicate has them. -/
def Run.Of (R : Row → Prop) (run : Run) : Prop := ∀ row ∈ run.rows, R row

theorem Run.Of.first {run : Run} (h : run.Of R) : R run.first := h _ List.mem_cons_self

theorem Run.of_ofRow {row : Row} (hrow : R row) : (Run.ofRow row).Of R :=
  List.forall_mem_singleton.2 hrow

theorem Run.Of.add {run : Run} {row : Row} (h : run.Of R) (hrow : R row) : (run.add row).Of R := by
  rw [Run.Of, Run.rows_add]
  exact List.forall_mem_append.2 ⟨h, List.forall_mem_singleton.2 hrow⟩

namespace Runs

variable {level : LevelInfo} {s : Runs} {row : Row}

/-- Runs of rows as a predicate has them. -/
structure Of (R : Row → Prop) (s : Runs) : Prop where
  closed : ∀ run ∈ s.closedReversed, run.Of R
  current : ∀ run ∈ s.current, run.Of R

theorem Of.close (h : s.Of R) : s.close.Of R where
  closed := List.forall_mem_append.2 ⟨fun run hrun => h.current run (by simpa using hrun), h.closed⟩
  current := nofun

/-- The search for an entity reads the first row of each run. -/
theorem onlyFails_anySameEntity (hlevel : level.Within C) (hrow : R row) {runs : List Run}
    (hruns : ∀ run ∈ runs, run.Of R) : OnlyFails (IsOfRows C R) (anySameEntity level row runs) := by
  induction runs with
  | nil => exact .ok trivial
  | cons run rest ih =>
    rw [List.forall_mem_cons] at hruns
    refine (hlevel.onlyFails_sameEntity hruns.1.first hrow).bind fun same _ => ?_
    split
    · exact .ok trivial
    · exact ih hruns.2

/-- Starting a run reads the row and the runs, all of them of these rows. -/
theorem Of.start (h : s.Of R) (hlevel : level.Within C) (hrow : R row) :
    ComesTo (IsOfRows C R) (Of R) (s.start level row) := by
  have hstarted : Of R { s.close with current := some (.ofRow row) } :=
    ⟨h.close.closed, by rintro _ ⟨⟩; exact Run.of_ofRow hrow⟩
  refine (onlyFails_anyPresent hrow hlevel.key).bind fun keyed _ => ?_
  split
  · have hclosed : ∀ run ∈ s.close.closedReversed.reverse, run.Of R :=
      fun run hrun => h.close.closed run (List.mem_reverse.1 hrun)
    refine (onlyFails_anySameEntity hlevel hrow hclosed).bind fun found _ => ?_
    split
    · exact .error (.entityReappeared _)
    · exact .ok hstarted
  · exact .ok hstarted

/-- **Adding a row** reads it in the columns of the level and its subtree. -/
theorem Of.add (h : s.Of R) (hlevel : level.Within C) (hrow : R row) :
    ComesTo (IsOfRows C R) (Of R) (s.add level row) := by
  refine (onlyFails_anyPresent hrow hlevel.own).bind fun present _ => ?_
  split
  · split
    · exact h.start hlevel hrow
    · next run hcurrent =>
      have hrun := h.current run hcurrent
      refine (hlevel.onlyFails_sameEntity hrun.first hrow).bind fun same _ => ?_
      split
      · exact .ok ⟨h.closed, by rintro _ ⟨⟩; exact hrun.add hrow⟩
      · exact h.start hlevel hrow
  · refine (onlyFails_anyPresent hrow hlevel.subtree).bind fun subtree _ => ?_
    split
    · exact .error (.entityAbsent _)
    · exact .ok h.close

end Runs

/-- The runs of a level are made of the rows, and an error is about one of them. -/
theorem comesTo_entityRuns {level : LevelInfo} (hlevel : level.Within C) {rows : List Row}
    (hrows : ∀ row ∈ rows, R row) :
    ComesTo (IsOfRows C R) (fun runs => ∀ run ∈ runs, run.Of R) (entityRuns level rows) := by
  have hfold : ComesTo (IsOfRows C R) (Runs.Of R) (rows.foldlM (Runs.add level) .none) :=
    comesTo_foldlM (fun s hs row hrow => hs.add hlevel (hrows row hrow))
      ⟨List.forall_mem_nil _, nofun⟩
  exact hfold.bind fun s hs =>
    .ok fun run hrun => hs.close.closed run (List.mem_reverse.1 hrun)

/-! ## Entries -/

/-- The step of the induction from the children to a level. -/
theorem onlyFails_buildNavigations {rows : List Row} (hrows : ∀ row ∈ rows, R row)
    {children : List Level} (hchildren : ∀ child ∈ children, child.info.Within C)
    (h : ∀ child ∈ children, ∀ run : Run, run.Of R → OnlyFails (IsOfRows C R) (child.build run)) :
    OnlyFails (IsOfRows C R) (buildNavigations rows children) := by
  induction children with
  | nil => exact .ok trivial
  | cons child rest ih =>
    rw [List.forall_mem_cons] at h hchildren
    rw [buildNavigations]
    refine (comesTo_entityRuns hchildren.1 hrows).bind fun runs hruns => ?_
    have hentries : OnlyFails (IsOfRows C R) (runs.mapM fun run => child.build run) :=
      onlyFails_mapM fun run hrun => h.1 run (hruns run hrun)
    by_cases hseveral : (child.info.role.isSingle && decide (1 < runs.length)) = true
    · rw [if_pos hseveral]
      exact .error (.severalEntities child.label runs.length)
    · rw [if_neg hseveral]
      exact hentries.bind fun _ _ => (ih hchildren.2 h.2).bind fun _ _ => .ok trivial

/-- **Building fails by what rows show.** -/
theorem Level.onlyFails_build {level : Level} (hlevel : level.Within C) {run : Run}
    (hrun : run.Of R) : OnlyFails (IsOfRows C R) (level.build run) := by
  induction hlevel generalizing run with
  | mk hinfo hbelow ih =>
    rw [build]
    exact (hinfo.onlyFails_read hrun.first).bind fun _ _ =>
      (onlyFails_buildNavigations hrun (fun child hchild => (hbelow child hchild).info)
        fun child hchild _ => ih child hchild).bind fun _ _ => .ok trivial

/-- The last value of a column is sought in that column. -/
theorem onlyFails_lastPresent {column : Nat} (hcolumn : C column) {rows : List Row}
    (hrows : ∀ row ∈ rows, R row) : OnlyFails (IsOfRows C R) (lastPresent column rows) := by
  have hlater : ∀ row ∈ rows.reverse, R row := fun row hrow => hrows row (List.mem_reverse.1 hrow)
  rw [lastPresent]
  generalize rows.reverse = later at hlater
  induction later with
  | nil => exact .ok trivial
  | cons row rest ih =>
    rw [List.forall_mem_cons] at hlater
    refine (onlyFails_column hlater.1 hcolumn).bind fun v _ => ?_
    split
    · exact ih hlater.2
    · exact .ok trivial

/-- A continuation is read off its own columns. -/
theorem onlyFails_continueAfter {rows : List Row} (hrows : ∀ row ∈ rows, R row)
    {columns : List ContinuationColumn} (hcolumns : ∀ column ∈ columns, C column.column)
    (e : Entry) : OnlyFails (IsOfRows C R) (continueAfter rows columns e) := by
  induction columns generalizing e with
  | nil => exact .ok trivial
  | cons column rest ih =>
    rw [List.forall_mem_cons] at hcolumns
    exact (onlyFails_lastPresent hcolumns.1 hrows).bind fun v _ =>
      (ih hcolumns.2 _).bind fun _ _ => .ok trivial

/-- A layout that reads none but some columns. -/
structure Layout.Within (C : Nat → Prop) (layout : Layout) : Prop where
  root : layout.root.Within C
  continuation : ∀ column ∈ layout.continuation, C column.column

theorem Layout.within_any (layout : Layout) : layout.Within fun _ => True :=
  ⟨layout.root.within_any, fun _ _ => trivial⟩

/-- Delivering an entry fails by what rows show. -/
theorem Materializer.onlyFails_deliver {m : Materializer} (hlayout : m.layout.Within C)
    {group : RowGroup} (hgroup : group.run.Of R) :
    OnlyFails (IsOfRows C R) (m.deliver group).1 := by
  have hbuild := Level.onlyFails_build hlayout.root hgroup
  rw [deliver]
  generalize m.layout.root.build group.run = built at hbuild
  cases hbuild with
  | error h => exact .error h
  | @ok entry _ =>
    have hcontinue := onlyFails_continueAfter hgroup hlayout.continuation entry
    dsimp only
    split
    · generalize continueAfter group.run.rows m.layout.continuation entry = continued at hcontinue
      cases hcontinue with
      | error h => exact .error h
      | ok _ => exact .ok trivial
    · exact .ok trivial

/-! ## Open elements -/

/-- What placing comes to: a fault in what rows show, or elements that are opened by rows as a
predicate has them. -/
abbrev ComesToOpen (C : Nat → Prop) (R : Row → Prop)
    (x : Except ReadError (List Event × List Frame)) : Prop :=
  ComesTo (IsOfRows C R) (fun result => ∀ f ∈ result.2, R f.row) x

variable {row : Row} {f : Frame} {deeper frames : List Frame}

/-- An element is opened by the row that is placed. -/
theorem comesToOpen_start {level : Level} (hlevel : level.info.Within C) (hrow : R row)
    (hplace : ComesToOpen C R (level.place row (.ofRow level row) []))
    {result : List (String × Scalar) → List Event × List Frame → List Event × List Frame}
    (hresult : ∀ properties below, (∀ g ∈ below.2, R g.row) →
      ∀ g ∈ (result properties below).2, R g.row) :
    ComesToOpen C R (do
      let properties ← level.info.read row
      let below ← level.place row (.ofRow level row) []
      return result properties below) :=
  (hlevel.onlyFails_read hrow).bind fun properties _ =>
    hplace.bind fun below hbelow => .ok (hresult properties below hbelow)

/-- The step of the induction from the children to a level. -/
theorem comesToOpen_placeAmong (hrow : R row) {children : List Level}
    (hchildren : ∀ child ∈ children, child.info.Within C)
    (h : ∀ child ∈ children, ∀ (f : Frame) (deeper : List Frame), R f.row →
      (∀ inner ∈ deeper, R inner.row) → ComesToOpen C R (child.place row f deeper))
    (hf : R f.row) (hdeeper : ∀ inner ∈ deeper, R inner.row) (position : Nat) :
    ComesToOpen C R (placeAmong row children position f deeper) := by
  induction children generalizing position with
  | nil => exact .ok (List.forall_mem_cons.2 ⟨hf, hdeeper⟩)
  | cons child rest ih =>
    rw [List.forall_mem_cons] at hchildren h
    rw [placeAmong]
    refine (onlyFails_anyPresent hrow hchildren.1.subtree).bind fun subtree _ => ?_
    cases subtree with
    | false => exact ih hchildren.2 h.2 (position + 1)
    | true =>
      refine (onlyFails_anyPresent hrow hchildren.1.own).bind fun present _ => ?_
      cases present with
      | false => exact .error (.entityAbsent _)
      | true =>
        by_cases hresumed : position < f.visited
        · simp only [hresumed, if_true]
          exact .error (.navigationResumed _)
        simp only [hresumed, Bool.not_true, Bool.false_eq_true, if_false]
        have hbegins := h.1 (.ofRow child row) [] hrow (List.forall_mem_nil _)
        -- The open entity of this very navigation, if there is one.
        generalize hformer : (if f.isOpen && position == f.visited then deeper.head? else none) =
          former
        cases former with
        | none =>
          exact comesToOpen_start hchildren.1 hrow hbegins
            fun _ _ hbelow => List.forall_mem_cons.2 ⟨hf, hbelow⟩
        | some inner =>
          have hhead := (Option.ite_none_right_eq_some.1 hformer).2
          have hinner := hdeeper inner (List.mem_of_mem_head? hhead)
          refine (hchildren.1.onlyFails_sameEntity hinner hrow).bind fun same _ => ?_
          cases same with
          | true =>
            have htail : ∀ g ∈ deeper.tail, R g.row :=
              fun g hg => hdeeper g (List.mem_of_mem_tail hg)
            exact (h.1 inner deeper.tail hinner htail).bind fun _ hbelow =>
              .ok (List.forall_mem_cons.2 ⟨hf, hbelow⟩)
          | false =>
            dsimp only
            split
            · exact .error (.secondEntity _)
            · exact comesToOpen_start hchildren.1 hrow hbegins
                fun _ _ hbelow => List.forall_mem_cons.2 ⟨hf, hbelow⟩

/-- **Placing a row** reads it in the columns of the levels, and opens frames of it. -/
theorem Level.comesToOpen_place {level : Level} (hlevel : level.Within C) (hrow : R row)
    (hf : R f.row) (hdeeper : ∀ inner ∈ deeper, R inner.row) :
    ComesToOpen C R (level.place row f deeper) := by
  induction hlevel generalizing f deeper with
  | mk hinfo hbelow ih =>
    rw [place]
    exact comesToOpen_placeAmong hrow (fun child hchild => (hbelow child hchild).info)
      (fun child hchild f deeper => ih child hchild) hf hdeeper 0

/-- **Placing fails by what rows show.** -/
theorem Layout.comesToOpen_placeRow {layout : Layout} (hroot : layout.root.Within C) (hrow : R row)
    (hframes : ∀ f ∈ frames, R f.row) : ComesToOpen C R (layout.placeRow row frames) := by
  have hbegins : ComesToOpen C R (layout.root.place row (.ofRow layout.root row) []) :=
    Level.comesToOpen_place hroot hrow hrow (List.forall_mem_nil _)
  refine (onlyFails_anyPresent hrow hroot.info.own).bind fun present _ => ?_
  cases present with
  | false => exact .error .rootAbsent
  | true =>
    cases frames with
    | nil => exact comesToOpen_start hroot.info hrow hbegins fun _ _ hbelow => hbelow
    | cons f deeper =>
      rw [List.forall_mem_cons] at hframes
      refine (hroot.info.onlyFails_sameEntity hframes.1 hrow).bind fun same _ => ?_
      cases same with
      | true => exact Level.comesToOpen_place hroot hrow hframes.1 hframes.2
      | false => exact comesToOpen_start hroot.info hrow hbegins fun _ _ hbelow => hbelow

end QueryPlans
