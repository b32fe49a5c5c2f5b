import QueryPlans.Materializer
import QueryPlans.Proofs.Forest.Basic

/-!
# Proofs/Forest/Runs — the rows of siblings are told apart

At the level of a navigation the rows of one entity after the other are split where they were put
together: rows of one entity show the same entity, the next one differs, and an entity with a key
differs from all that came before.  Rows of other navigations are blank there and belong to no run.
-/

namespace QueryPlans

variable {level : Level} {rowOf : Cells → Row} {e : Entity} {es before : List Entity}

/-! ## The run of an entity -/

/-- The run of the rows of an entity. -/
def Level.runOf (level : Level) (rowOf : Cells → Row) (e : Entity) : Run :=
  ⟨level.headRow rowOf e, ((level.flatten e).tail.map rowOf).reverse⟩

theorem Level.first_runOf (level : Level) (rowOf : Cells → Row) (e : Entity) :
    (level.runOf rowOf e).first = level.headRow rowOf e := rfl

theorem Level.rows_runOf (level : Level) (rowOf : Cells → Row) (e : Entity) :
    (level.runOf rowOf e).rows = (level.flatten e).map rowOf := by
  rw [level.map_flatten, Run.rows]
  exact congrArg (_ :: ·) (List.reverse_reverse _)

/-! ## Runs of siblings -/

namespace Runs

@[simp] theorem close_close (s : Runs) : s.close.close = s.close := rfl

/-- The runs of siblings, the last one in front and not yet ended. -/
def ofEntities (level : Level) (rowOf : Cells → Row) : List Entity → Runs
  | [] => .none
  | e :: before => ⟨before.map (level.runOf rowOf), some (level.runOf rowOf e)⟩

theorem close_ofEntities (level : Level) (rowOf : Cells → Row) (es : List Entity) :
    (ofEntities level rowOf es).close = ⟨es.map (level.runOf rowOf), .none⟩ := by
  cases es <;> rfl

/-- Rows that are blank at a level end the last run. -/
theorem foldlM_add_blank (hshown : level.Shown rowOf) (hwf : level.WellFormed) {cs : List Cells}
    (hblank : ∀ cells ∈ cs, ∀ c ∈ level.info.subtreeColumns, cells c = .null) (s : Runs) :
    (cs.map rowOf).foldlM (Runs.add level.info) s = .ok (if cs = [] then s else s.close) := by
  induction cs generalizing s with
  | nil => rfl
  | cons cells rest ih =>
    rw [List.forall_mem_cons] at hblank
    have hadd : s.add level.info (rowOf cells) = .ok s.close := by
      simp [Runs.add, hshown.isPresent_blank hwf hblank.1, hshown.isSubtreePresent_blank hblank.1]
    rw [List.map_cons, List.foldlM_cons, hadd, ok_bind, ih hblank.2]
    split_ifs <;> simp_all

theorem anySameEntity_eq_false {info : LevelInfo} {row : Row} {runs : List Run}
    (h : ∀ run ∈ runs, info.sameEntity run.first row = .ok false) :
    anySameEntity info row runs = .ok false := by
  induction runs with
  | nil => rfl
  | cons run rest ih =>
    rw [List.forall_mem_cons] at h
    rw [anySameEntity, h.1, ok_bind]
    exact ih h.2

/-- The first row of an entity that differs from those before starts a run. -/
theorem add_first (hshown : level.Shown rowOf) (hwf : level.WellFormed)
    (hpresent : level.info.isPresentIn e.value = true)
    (hadjacent : ∀ a ∈ before.head?, level.info.isSame a.value e.value = false)
    (hkeyed : ∀ a ∈ before, level.info.isKeyedIn a.value = true →
      level.info.isKeyedIn e.value = true → level.info.isSame a.value e.value = false) :
    (ofEntities level rowOf before).add level.info (level.headRow rowOf e) =
      .ok ⟨before.map (level.runOf rowOf), some (.ofRow (level.headRow rowOf e))⟩ := by
  have hrow := hshown.headRow (e := e) hwf
  have hsame (a : Entity) : level.info.sameEntity (level.runOf rowOf a).first
      (level.headRow rowOf e) = .ok (level.info.isSame a.value e.value) :=
    hwf.owns.sameEntity_eq (hshown.headRow hwf) hrow
  -- Runs that are closed matter only where a key comes again.
  have hstart : (ofEntities level rowOf before).start level.info (level.headRow rowOf e) =
      .ok ⟨before.map (level.runOf rowOf), some (.ofRow (level.headRow rowOf e))⟩ := by
    rw [Runs.start, close_ofEntities, hwf.owns.hasKey_eq hrow, ok_bind]
    cases hkey : level.info.isKeyedIn e.value with
    | false => rfl
    | true =>
      have hnone : anySameEntity level.info (level.headRow rowOf e)
          (before.map (level.runOf rowOf)).reverse = .ok false := by
        refine anySameEntity_eq_false fun run hrun => ?_
        obtain ⟨a, ha, rfl⟩ := List.mem_map.1 (List.mem_reverse.1 hrun)
        rw [hsame]
        cases hkeya : level.info.isKeyedIn a.value with
        | true => rw [hkeyed a ha hkeya hkey]
        | false => rw [LevelInfo.isSame, hkeya, hkey]; rfl
      rw [if_pos rfl, hnone]
      rfl
  rw [Runs.add, hrow.isPresent_eq, hpresent, ok_bind, if_pos rfl]
  cases before with
  | nil => exact hstart
  | cons a before =>
    have hdiffer : level.info.isSame a.value e.value = false := hadjacent a rfl
    change (do
      if ← level.info.sameEntity (level.runOf rowOf a).first (level.headRow rowOf e) then _
      else _) = _
    rw [hsame, hdiffer]
    exact hstart

/-- Later rows of an entity stay in its run. -/
theorem foldlM_add_same {info : LevelInfo} {rows : List Row} {closed : List Run} {run : Run}
    (h : ∀ row ∈ rows, info.isPresent row = .ok true ∧ info.sameEntity run.first row = .ok true) :
    rows.foldlM (Runs.add info) ⟨closed, some run⟩ =
      .ok ⟨closed, some ⟨run.first, rows.reverse ++ run.laterReversed⟩⟩ := by
  induction rows generalizing run with
  | nil => rfl
  | cons row rest ih =>
    rw [List.forall_mem_cons] at h
    have hadd : Runs.add info ⟨closed, some run⟩ row = .ok ⟨closed, some (run.add row)⟩ := by
      simp [Runs.add, h.1.1, h.1.2]
    have hrest : ∀ row' ∈ rest, info.isPresent row' = .ok true ∧
        info.sameEntity (run.add row).first row' = .ok true := h.2
    rw [List.foldlM_cons, hadd, ok_bind, ih hrest, List.reverse_cons, List.append_assoc]
    rfl

theorem foldlM_add_entity (hshown : level.Shown rowOf) (hwf : level.WellFormed)
    (hpresent : level.info.isPresentIn e.value = true)
    (hadjacent : ∀ a ∈ before.head?, level.info.isSame a.value e.value = false)
    (hkeyed : ∀ a ∈ before, level.info.isKeyedIn a.value = true →
      level.info.isKeyedIn e.value = true → level.info.isSame a.value e.value = false) :
    ((level.flatten e).map rowOf).foldlM (Runs.add level.info) (ofEntities level rowOf before) =
      .ok (ofEntities level rowOf (e :: before)) := by
  rw [level.map_flatten, List.foldlM_cons, add_first hshown hwf hpresent hadjacent hkeyed, ok_bind,
    foldlM_add_same, ofEntities]
  · simp [Run.ofRow, Level.runOf]
  · intro row hrow
    obtain ⟨cells, hcells, rfl⟩ := List.mem_map.1 hrow
    have hcells := List.mem_of_mem_tail hcells
    exact ⟨hshown.isPresent_of_mem hwf hpresent hcells, hshown.sameEntity_of_mem hwf hcells⟩

theorem foldlM_add_entities (before : List Entity) (hshown : level.Shown rowOf)
    (hwf : level.WellFormed) (hpresent : ∀ e ∈ es, level.info.isPresentIn e.value = true)
    (hadjacent : AdjacentDiffer level.info (before.reverse ++ es))
    (hkeyed : KeyedDiffer level.info (before.reverse ++ es)) :
    ((es.flatMap level.flatten).map rowOf).foldlM (Runs.add level.info)
        (ofEntities level rowOf before) =
      .ok (ofEntities level rowOf (es.reverse ++ before)) := by
  induction es generalizing before with
  | nil => rfl
  | cons e rest ih =>
    rw [List.forall_mem_cons] at hpresent
    have hlast : ∀ a ∈ before.head?, level.info.isSame a.value e.value = false := by
      intro a ha
      rw [AdjacentDiffer, List.isChain_append] at hadjacent
      exact hadjacent.2.2 a (by simpa using ha) e rfl
    have hothers : ∀ a ∈ before, level.info.isKeyedIn a.value = true →
        level.info.isKeyedIn e.value = true → level.info.isSame a.value e.value = false := by
      intro a ha
      rw [KeyedDiffer, List.pairwise_append] at hkeyed
      exact hkeyed.2.2 a (List.mem_reverse.2 ha) e (List.mem_cons_self ..)
    have hrest := ih (e :: before) hpresent.2 (by simpa using hadjacent) (by simpa using hkeyed)
    rw [List.flatMap_cons, List.map_append, List.foldlM_append,
      foldlM_add_entity hshown hwf hpresent.1 hlast hothers, ok_bind, hrest, List.reverse_cons,
      List.append_assoc]
    rfl

end Runs

/-- **The rows of siblings are split into their runs**, whatever blank rows stand around them. -/
theorem entityRuns_eq (hshown : level.Shown rowOf) (hwf : level.WellFormed)
    (hpresent : ∀ e ∈ es, level.info.isPresentIn e.value = true)
    (hadjacent : AdjacentDiffer level.info es) (hkeyed : KeyedDiffer level.info es)
    {lead trail : List Cells}
    (hlead : ∀ cells ∈ lead, ∀ c ∈ level.info.subtreeColumns, cells c = .null)
    (htrail : ∀ cells ∈ trail, ∀ c ∈ level.info.subtreeColumns, cells c = .null) :
    entityRuns level.info ((lead ++ es.flatMap level.flatten ++ trail).map rowOf) =
      .ok (es.map (level.runOf rowOf)) := by
  have hstart : (lead.map rowOf).foldlM (Runs.add level.info) .none =
      .ok (Runs.ofEntities level rowOf []) := by
    rw [Runs.foldlM_add_blank hshown hwf hlead]
    split_ifs <;> rfl
  have hentities := Runs.foldlM_add_entities [] hshown hwf hpresent hadjacent hkeyed
  have hclose (s : Runs) : (if trail = [] then s else s.close).toList = s.toList := by
    split_ifs <;> rfl
  rw [entityRuns, List.map_append, List.map_append, List.foldlM_append, List.foldlM_append, hstart,
    ok_bind, hentities, ok_bind, Runs.foldlM_add_blank hshown hwf htrail, ok_bind, pure_eq_ok,
    hclose, Runs.toList, Runs.close_ofEntities]
  simp

end QueryPlans
