import QueryPlans.Proofs.Forest.Entries
import QueryPlans.Proofs.Ownership.Runs

/-!
# Proofs/Ownership/Holding — every row is owned once at every level

A holding is an entity together with the rows that it owns.  What the materializer builds from rows,
whatever their order and whatever else stands on them, is read off holdings: the rows of an entity
are shared out among the entities of each of its navigations (`Level.build_ok`).  The roots have
blocks of all rows in the same way (`drained_of_drains`).
-/

namespace QueryPlans

variable {α : Type}

/-! ## Holdings -/

/-- **An entity with the rows that it owns**, and the entities of each of its navigations. -/
inductive Holding (α : Type) where
  | mk (rows : List α) (branches : List (List (Holding α)))

namespace Holding

/-- The rows that the entity owns. -/
def rows : Holding α → List α
  | mk rows _ => rows

/-- The holdings of each navigation, in the order of the child levels. -/
def branches : Holding α → List (List (Holding α))
  | mk _ branches => branches

/-- The entities of the navigation at a position. -/
def branch (h : Holding α) (position : Nat) : List (Holding α) := h.branches[position]?.getD []

/-- The cells of the first of several rows. -/
def headCells (cells : α → Cells) (rows : List α) : Cells := rows.head?.elim Cells.blank cells

mutual

/-- **The entity itself**: the first row gives it its values. -/
def entity (cells : α → Cells) : Holding α → Entity
  | mk rows branches => .mk (headCells cells rows) (branchEntities cells branches)

/-- The entities of several holdings. -/
def entities (cells : α → Cells) : List (Holding α) → List Entity
  | [] => []
  | h :: rest => h.entity cells :: entities cells rest

/-- The entities of each navigation. -/
def branchEntities (cells : α → Cells) : List (List (Holding α)) → List (List Entity)
  | [] => []
  | hs :: more => entities cells hs :: branchEntities cells more

end

theorem entities_eq (cells : α → Cells) (hs : List (Holding α)) :
    entities cells hs = hs.map (entity cells) := by
  induction hs with
  | nil => rfl
  | cons h rest ih => rw [entities, ih, List.map_cons]

@[simp] theorem value_entity (cells : α → Cells) (h : Holding α) :
    (h.entity cells).value = headCells cells h.rows := by
  cases h
  rfl

end Holding

/-- **How rows are divided** among the entities of a navigation. -/
structure LevelInfo.Divides (level : LevelInfo) (cells : α → Cells) (owned : List α)
    (parts : List (Holding α)) : Prop where
  shares : level.Shares cells owned (parts.map Holding.rows)
  keyed : KeyedDiffer level (parts.map (Holding.entity cells))
  single : level.role.isSingle = true → parts.length ≤ 1
  /-- No row shows something below the level alone. -/
  nested : ∀ a ∈ owned, level.isSubtreePresentIn (cells a) = true →
    level.isPresentIn (cells a) = true

/-- **A holding that is in order**, down to the last level. -/
inductive Level.Settles (cells : α → Cells) : Level → Holding α → Prop
  | mk {info : LevelInfo} {children : List Level} {h : Holding α}
    (divides : ∀ (k : Nat) (child : Level), children[k]? = some child →
      child.info.Divides cells h.rows (h.branch k))
    (below : ∀ (k : Nat) (child : Level), children[k]? = some child →
      ∀ h' ∈ h.branch k, Settles cells child h') :
    Settles cells (.mk info children) h

/-- What holds of a holding holds of each of its navigations. -/
theorem Level.Settles.branch {cells : α → Cells} {level child : Level} {h : Holding α} {k : Nat}
    (hsettles : level.Settles cells h) (hchild : level.children[k]? = some child) :
    child.info.Divides cells h.rows (h.branch k) ∧ ∀ h' ∈ h.branch k, child.Settles cells h' := by
  cases hsettles with
  | mk divides below => exact ⟨divides k child hchild, below k child hchild⟩

/-! ## Holdings of rows -/

mutual

/-- The holding of rows, split level by level. -/
def Level.hold (split : LevelInfo → List α → List (List α)) : Level → List α → Holding α
  | .mk _ children, rows => .mk rows (holdBranches split rows children)

/-- The holdings below an entity. -/
def holdBranches (split : LevelInfo → List α → List (List α)) (rows : List α) :
    List Level → List (List (Holding α))
  | [] => []
  | child :: rest => (split child.info rows).map (child.hold split) :: holdBranches split rows rest

end

section

variable (split : LevelInfo → List α → List (List α)) (rows : List α)

/-- Rows are split for each child on its own. -/
theorem holdBranches_eq (children : List Level) :
    holdBranches split rows children =
      children.map fun child => (split child.info rows).map (child.hold split) := by
  induction children with
  | nil => rfl
  | cons child rest ih => rw [holdBranches, ih, List.map_cons]

@[simp] theorem Level.rows_hold (level : Level) : (level.hold split rows).rows = rows := by
  cases level
  rfl

/-- The holdings of a navigation are the parts into which its level splits the rows. -/
theorem Level.branch_hold {info : LevelInfo} {children : List Level} {k : Nat} {child : Level}
    (hchild : children[k]? = some child) :
    ((Level.mk info children).hold split rows).branch k =
      (split child.info rows).map (child.hold split) := by
  rw [Level.hold, Holding.branch, Holding.branches, holdBranches_eq, List.getElem?_map, hchild]
  rfl

/-- The entity of rows: the first gives it its values, and each navigation has those of its
parts. -/
theorem Level.entity_hold (cells : α → Cells) (info : LevelInfo) (children : List Level) :
    ((Level.mk info children).hold split rows).entity cells =
      .mk (Holding.headCells cells rows) (children.map fun child =>
        (split child.info rows).map fun part => (child.hold split part).entity cells) := by
  have hbranches : Holding.branchEntities cells (holdBranches split rows children) =
      children.map fun child =>
        (split child.info rows).map fun part => (child.hold split part).entity cells := by
    induction children with
    | nil => rfl
    | cons child rest ih =>
      rw [holdBranches, Holding.branchEntities, ih, Holding.entities_eq, List.map_map]
      rfl
  rw [hold, Holding.entity, hbranches]

/-- A holding owns what it was made of. -/
theorem map_rows_hold (level : Level) (parts : List (List α)) :
    (parts.map (level.hold split)).map Holding.rows = parts := by
  simp [Function.comp_def]

end

/-! ## Building -/

section

variable {rowOf : α → Row} {as : List α} {parts : List (List α)} {run : Run} {runs : List Run}

/-- The holding that the materializer reads rows as. -/
abbrev Level.holding (rowOf : α → Row) (level : Level) (as : List α) : Holding α :=
  level.hold (fun info => info.runs (cellsOf rowOf)) as

/-- What building has done whenever it succeeds. -/
def Level.BuildsBack (rowOf : α → Row) (level : Level) : Prop :=
  ∀ ⦃run as entry⦄, run.rows = as.map rowOf → level.build run = .ok entry →
    entry = level.entry ((level.holding rowOf as).entity (cellsOf rowOf)) ∧
      level.Settles (cellsOf rowOf) (level.holding rowOf as)

/-- The first row of a run is the first of its rows. -/
theorem headCells_of_rows_eq (h : run.rows = as.map rowOf) :
    Holding.headCells (cellsOf rowOf) as = run.first.toCells := by
  cases as with
  | nil => cases h
  | cons a rest => exact congrArg Row.toCells (List.cons.inj h).1.symm

/-- Runs that were split off differ in their keys, and so do their entities. -/
theorem keyedDiffer_of_splits {child : Level} {s : Runs} (h : s.Splits child.info rowOf as) :
    KeyedDiffer child.info (((child.info.runs (cellsOf rowOf) as).map (child.holding rowOf)).map
      (Holding.entity (cellsOf rowOf))) := by
  -- Both lists are compared by the cells of first rows.
  let Differ (a b : Cells) : Prop := child.info.isKeyedIn a = true →
    child.info.isKeyedIn b = true → child.info.isSame a b = false
  have hfirst : s.toList.map (fun run => run.first.toCells) =
      (child.info.runs (cellsOf rowOf) as).map (Holding.headCells (cellsOf rowOf)) := by
    have hcells := congrArg (List.map (Holding.headCells Row.toCells)) h.rows_eq
    rw [List.map_map, List.map_map] at hcells
    refine hcells.trans (List.map_congr_left fun part _ => ?_)
    cases part <;> rfl
  have hkeyed : (s.toList.map fun run => run.first.toCells).Pairwise Differ :=
    List.pairwise_map.2 h.keyed
  rw [hfirst, List.pairwise_map] at hkeyed
  rw [KeyedDiffer, List.pairwise_map, List.pairwise_map]
  simpa using hkeyed

/-- The runs of a navigation are built back one by one. -/
theorem mapM_build_ok {child : Level} (hchild : child.BuildsBack rowOf) {entries : List Entry}
    (hrows : runs.map Run.rows = parts.map (List.map rowOf))
    (h : runs.mapM (fun run => child.build run) = .ok entries) :
    entries = (parts.map (child.holding rowOf)).map (fun held =>
        child.entry (held.entity (cellsOf rowOf))) ∧
      ∀ part ∈ parts, child.Settles (cellsOf rowOf) (child.holding rowOf part) := by
  induction runs generalizing parts entries with
  | nil =>
    obtain rfl : parts = [] := by simpa using hrows.symm
    cases h
    exact ⟨rfl, by simp⟩
  | cons run rest ih =>
    cases parts with
    | nil => cases hrows
    | cons part others =>
      rw [List.map_cons, List.map_cons, List.cons.injEq] at hrows
      rw [List.mapM_cons] at h
      obtain ⟨entry, hentry, h⟩ := bind_eq_ok_iff.1 h
      obtain ⟨more, hmore, h⟩ := bind_eq_ok_iff.1 h
      cases h
      obtain ⟨rfl, hsettles⟩ := hchild hrows.1 hentry
      obtain ⟨rfl, hothers⟩ := ih hrows.2 hmore
      exact ⟨rfl, List.forall_mem_cons.2 ⟨hsettles, hothers⟩⟩

/-- What building a navigation has found out about the rows of an entity. -/
structure Level.Divided (rowOf : α → Row) (as : List α) (child : Level) : Prop where
  divides : child.info.Divides (cellsOf rowOf) as
    ((child.info.runs (cellsOf rowOf) as).map (child.holding rowOf))
  settles : ∀ part ∈ child.info.runs (cellsOf rowOf) as,
    child.Settles (cellsOf rowOf) (child.holding rowOf part)

/-- The step of the induction from the children to a level: their runs are what the rows are shared
out into. -/
theorem buildNavigations_ok {children : List Level} {navigations : List (String × Branch)}
    (hwf : ∀ child ∈ children, child.WellFormed)
    (ih : ∀ child ∈ children, child.BuildsBack rowOf)
    (h : buildNavigations (as.map rowOf) children = .ok navigations) :
    navigations = branchEntries children (Holding.branchEntities (cellsOf rowOf)
        (holdBranches (fun info => info.runs (cellsOf rowOf)) as children)) ∧
      ∀ child ∈ children, child.Divided rowOf as := by
  -- On the children, with the rows fixed: each child splits all of them anew.
  induction children generalizing navigations with
  | nil =>
    cases h
    refine ⟨?_, by simp⟩
    rw [branchEntries.eq_def]
  | cons child rest ihrest =>
    rw [List.forall_mem_cons] at hwf ih
    rw [buildNavigations] at h
    obtain ⟨runs, hruns, h⟩ := bind_eq_ok_iff.1 h
    obtain ⟨s, rfl, hsplits⟩ := entityRuns_ok hwf.1.owns hruns
    -- A single navigation with several runs has failed before any entry was built.
    cases hfew : child.info.role.isSingle && decide (1 < s.toList.length) with
    | true =>
      rw [hfew] at h
      cases h
    | false =>
      rw [hfew] at h
      obtain ⟨entries, hentries, h⟩ := bind_eq_ok_iff.1 h
      obtain ⟨others, hothers, h⟩ := bind_eq_ok_iff.1 h
      cases h
      obtain ⟨rfl, hsettles⟩ := mapM_build_ok ih.1 hsplits.rows_eq hentries
      obtain ⟨rfl, hrest⟩ := ihrest hwf.2 ih.2 hothers
      have hlength := congrArg List.length hsplits.rows_eq
      rw [List.length_map, List.length_map] at hlength
      have hdivides : child.info.Divides (cellsOf rowOf) as
          ((child.info.runs (cellsOf rowOf) as).map (child.holding rowOf)) := {
        shares := by
          rw [map_rows_hold]
          exact LevelInfo.shares_runs hwf.1.owns (cellsOf rowOf) as
        keyed := keyedDiffer_of_splits hsplits
        single := fun hsingle => by
          rw [List.length_map, ← hlength]
          simpa [hsingle] using hfew
        nested := hsplits.nested }
      refine ⟨?_, List.forall_mem_cons.2 ⟨⟨hdivides, hsettles⟩, hrest⟩⟩
      rw [holdBranches, Holding.branchEntities, Holding.entities_eq, branchEntries]
      simp only [List.map_map, Function.comp_def]

/-- **Building that succeeds** reads the rows as a holding in order, and gives its entry. -/
theorem Level.build_ok (rowOf : α → Row) (level : Level) (hwf : level.WellFormed) :
    level.BuildsBack rowOf := by
  induction level with
  | mk info children ih =>
    obtain ⟨owns, below⟩ := hwf
    intro run as entry hrows h
    rw [Level.build] at h
    obtain ⟨properties, hread, h⟩ := bind_eq_ok_iff.1 h
    obtain ⟨navigations, hnavigations, h⟩ := bind_eq_ok_iff.1 h
    cases h
    rw [hrows] at hnavigations
    obtain ⟨rfl, hdivided⟩ :=
      buildNavigations_ok below (fun child hchild => ih child hchild (below child hchild))
        hnavigations
    refine ⟨?_, .mk (fun k child hchild => ?_) fun k child hchild => ?_⟩
    · rw [← LevelInfo.values_of_ok hread, ← headCells_of_rows_eq hrows]
      rfl
    · rw [Level.branch_hold _ _ hchild, Level.rows_hold]
      exact (hdivided child (List.mem_of_getElem? hchild)).divides
    · rw [Level.branch_hold _ _ hchild, List.forall_mem_map]
      exact (hdivided child (List.mem_of_getElem? hchild)).settles

/-! ## Draining -/

/-- **What a materializer that comes to its end has made of its rows.** -/
structure Layout.Drained (layout : Layout) (rowOf : α → Row) (as : List α)
    (entries : List Entry) : Prop where
  entries_eq : entries = ((layout.root.info.runs (cellsOf rowOf) as).map
    (layout.root.holding rowOf)).map fun held => layout.root.entry (held.entity (cellsOf rowOf))
  settles : ∀ part ∈ layout.root.info.runs (cellsOf rowOf) as,
    layout.root.Settles (cellsOf rowOf) (layout.root.holding rowOf part)
  present : ∀ a ∈ as, layout.root.info.isPresentIn (cellsOf rowOf a) = true

/-- The rows of a group are the first run of the root level. -/
theorem runs_of_usedGroup {layout : Layout} {part rest : List α} (hwf : layout.root.WellFormed)
    (h : Materializer.UsedGroup layout ((part ++ rest).map rowOf) run (rest.map rowOf))
    (hpart : part.map rowOf = run.rows) :
    (∀ a ∈ part, layout.root.info.isPresentIn (cellsOf rowOf a) = true) ∧
      layout.root.info.runs (cellsOf rowOf) (part ++ rest) =
        part :: layout.root.info.runs (cellsOf rowOf) rest := by
  have hequiv := layout.root.info.isEquivalence_isSame
  have hne : part ≠ [] := by
    rintro rfl
    cases hpart
  have hfirst : ∀ a ∈ part,
      layout.root.info.isSame run.first.toCells (cellsOf rowOf a) = true := by
    intro a ha
    have hrow : rowOf a ∈ run.rows := hpart ▸ List.mem_map_of_mem ha
    rcases List.mem_cons.1 hrow with hrow | hrow
    · rw [cellsOf, hrow]
      exact hequiv.self _
    · exact LevelInfo.sameEntity_of_ok (h.same _ hrow)
  have hshown : ∀ a ∈ part, layout.root.info.isPresentIn (cellsOf rowOf a) = true := fun a ha =>
    (hwf.owns.isPresentIn_eq (hfirst a ha)).symm.trans (LevelInfo.isPresent_of_ok h.present)
  refine ⟨hshown, LevelInfo.runs_append hne hshown
    (fun a ha b hb => hequiv.trans (hequiv.symm (hfirst a ha)) (hfirst b hb))
    fun a ha b hb => ?_⟩
  -- The row behind the group was compared with its first row, to which all others are equal.
  rw [← hequiv.congr (hfirst a ha)]
  refine LevelInfo.sameEntity_of_ok (h.other _ ?_)
  rw [List.head?_map]
  exact Option.mem_map_of_mem rowOf hb

/-- **A materializer that comes to its end** has read its rows as holdings in order. -/
theorem drained_of_drains {layout : Layout} {limit : Nat} (hwf : layout.root.WellFormed)
    {m : Materializer} {entries : List Entry} (h : m.Awaits layout limit (as.map rowOf))
    (hdrains : m.Drains entries none) : layout.Drained rowOf as entries := by
  generalize hfault : (none : Option ReadError) = fault at hdrains
  induction hdrains generalizing as with
  | done hnext =>
    obtain rfl : as = [] := by simpa using h.of_next_none hnext
    exact ⟨rfl, by simp [LevelInfo.runs, LevelInfo.blocks], by simp⟩
  | failed _ => cases hfault
  | entry hnext _ ih =>
    obtain ⟨run, tail, hgroup, hbuild, hrest⟩ := h.of_next_some hnext
    obtain ⟨part, rest, rfl, hpart, rfl⟩ := List.map_eq_append_iff.1 hgroup.rows_eq
    obtain ⟨hentries, hsettles, hall⟩ := ih hrest hfault
    obtain ⟨rfl, hsettled⟩ := layout.root.build_ok rowOf hwf hpart.symm hbuild
    obtain ⟨hshown, hruns⟩ := runs_of_usedGroup hwf hgroup hpart
    refine ⟨?_, ?_, ?_⟩
    · rw [hruns, hentries]
      rfl
    · rw [hruns, List.forall_mem_cons]
      exact ⟨hsettled, hsettles⟩
    · rw [List.forall_mem_append]
      exact ⟨hshown, hall⟩

end

end QueryPlans
