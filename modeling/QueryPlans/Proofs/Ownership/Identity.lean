import QueryPlans.Proofs.Schedule.Entries

/-!
# Proofs/Ownership/Identity — which rows show one entity

Whether two rows show one entity of a level is decided by the key of the level if both have one, and
by all columns if neither has.  On rows that are wide enough this is an equivalence, for values are
compared by what they are, not-a-numbers and signed zeros included.  That is why it is enough to
compare a row with the first of its group: all rows of a group show one entity, and a neighbour of
the group shows it with none of them (`LevelSpec.identity_of_layout`).
-/

namespace QueryPlans

/-! ## Rows of the width of a layout -/

/-- Rows that have all columns of a layout. -/
abbrev Layout.WideRow (layout : Layout) : Type := { row : Row // layout.width ≤ row.width }

namespace LevelSpec

variable {spec : LevelSpec} {layout : Layout} {level : Level} {row a b : Row}

/-- Every level of a layout has its own columns among those of its subtree. -/
theorem owns_of_mem_levels (h : spec.layout = .ok layout) (hlevel : level ∈ layout.levels) :
    Level.Owns level.info level.children :=
  ((wellFormed_of_layout h).of_mem_preorder hlevel).owns

/-- A row that is wide enough shows all there is at a level and below. -/
theorem shows_of_mem_levels (h : spec.layout = .ok layout) (hlevel : level ∈ layout.levels)
    (hrow : layout.width ≤ row.width) : row.Shows level.info.subtreeColumns row.toCells := by
  intro c hc
  have hlt := lt_width_of_layout h ((wellFormed_of_layout h).subtree_mono hlevel hc)
  exact Row.column_eq_toCells (hlt.trans_le hrow)

/-- **Identity is decided by the cells** of rows that are wide enough. -/
theorem sameEntity_eq (h : spec.layout = .ok layout) (hlevel : level ∈ layout.levels)
    (ha : layout.width ≤ a.width) (hb : layout.width ≤ b.width) :
    level.info.sameEntity a b = .ok (level.info.isSame a.toCells b.toCells) :=
  (owns_of_mem_levels h hlevel).sameEntity_toCells (shows_of_mem_levels h hlevel ha)
    (shows_of_mem_levels h hlevel hb)

/-- **Being of the same entity is an equivalence** of the rows wide enough for the layout. -/
theorem equivalence_sameEntity (h : spec.layout = .ok layout) (hlevel : level ∈ layout.levels) :
    Equivalence fun a b : layout.WideRow => level.info.sameEntity a.1 b.1 = .ok true := by
  have hcells (a b : layout.WideRow) : level.info.sameEntity a.1 b.1 = .ok true ↔
      level.info.isSame a.1.toCells b.1.toCells = true := by
    rw [sameEntity_eq h hlevel a.2 b.2, Except.ok.injEq]
  simp only [hcells]
  exact ⟨fun a => level.info.isSame_self _, LevelInfo.isSame_symm, LevelInfo.isSame_trans⟩

end LevelSpec

/-! ## Root groups -/

namespace Materializer

/-- **A group that is gathered** stands in its place among the rows that are delivered. -/
theorem Played.isBlock_of_gather {spec : LevelSpec} {layout : Layout} {deliveries : List Delivery}
    {pageSize : Option Nat} {answers : List (Except ReadError (Option Entry))}
    {m m' : Materializer} {group : RowGroup} (hlayout : spec.layout = .ok layout)
    (hwide : ∀ row ∈ readable deliveries, layout.width ≤ row.width)
    (h : Played layout deliveries pageSize answers m) (hopen : m.finished = false)
    (hgather : m.gather = (.ok (some group), m')) :
    ∃ before after, readable deliveries = before ++ group.run.rows ++ after ∧
      IsBlock layout.root.info.sameEntity before group.run.rows after := by
  obtain ⟨-, groups, -, huses⟩ := h.uses_of_open hopen
  obtain ⟨hused, -⟩ := huses.of_gather_some hgather
  have hgroups := hused.groups_eq
  rw [List.append_assoc, List.singleton_append] at hgroups
  have hflatten := layout.flatten_groups (readable deliveries)
  rw [hgroups, List.flatten_append, List.flatten_cons, ← List.append_assoc] at hflatten
  refine ⟨_, _, hflatten.symm,
    (layout.root.info.isEquivalence_cells Row.toCells).isBlock ?_ hgroups⟩
  exact fun a ha b hb => LevelSpec.sameEntity_eq hlayout (Level.mem_preorder_self _) (hwide a ha)
    (hwide b hb)

end Materializer

/-- **Row identity is an equivalence** at every level of a layout, on rows that are wide enough, and
it is always decided.  So whenever a group is gathered, all rows of the group show one root entity,
and the rows in front of it and behind it show it with none of them. -/
theorem LevelSpec.identity_of_layout (spec : LevelSpec) (layout : Layout)
    (h : spec.layout = .ok layout) :
    (∀ level ∈ layout.levels,
      (∀ a b : layout.WideRow, ∃ same, level.info.sameEntity a.1 b.1 = .ok same) ∧
        Equivalence fun a b : layout.WideRow => level.info.sameEntity a.1 b.1 = .ok true) ∧
      ∀ (source : Cursor) (limit : Nat) (pageSize : Option Nat)
        (answers : List (Except ReadError (Option Entry))) (m m' : Materializer) (group : RowGroup),
        source.fetched = 0 → source.exhausted = false →
        (∀ row ∈ readable source.pending, layout.width ≤ row.width) →
        Materializer.consumer.Plays { Materializer.ofCursor layout source limit with pageSize }
          answers m →
        m.finished = false → m.gather = (.ok (some group), m') →
        ∃ before after, readable source.pending = before ++ group.run.rows ++ after ∧
          IsBlock layout.root.info.sameEntity before group.run.rows after := by
  refine ⟨fun level hlevel => ⟨fun a b => ⟨_, sameEntity_eq h hlevel a.2 b.2⟩,
    equivalence_sameEntity h hlevel⟩, ?_⟩
  intro source limit pageSize answers m m' group hfetched hexhausted hwide hplays hopen hgather
  have hplayed := Materializer.Played.of_plays
    (Materializer.played_ofCursor layout source hfetched hexhausted limit pageSize) hplays
  exact hplayed.isBlock_of_gather h hwide hopen hgather

/-- Readings of sensors.  A sensor is known by two columns, of which one may be missing. -/
def LevelSpec.sensors : LevelSpec :=
  (LevelSpec.empty.hiddenKey 0).hiddenKey 1 |>.property "Unit" 2

/-- The layout of `LevelSpec.sensors`. -/
def Layout.sensors : Layout :=
  ⟨.mk ⟨0, .root, [⟨"Unit", 2⟩], [0, 1], [0, 1, 2], [0, 1, 2], none, 0⟩ [], [], 3⟩

/-- Two rows of a not-a-number, then one of each zero, and two without a key. -/
def Row.readings : List Row :=
  let float (bits : UInt64) : Scalar := .float ⟨bits⟩
  [⟨[float 0x7ff8000000000000, .null, .string "m"]⟩,
    ⟨[float 0x7ff8000000000000, .null, .string "s"]⟩, ⟨[float 0, .null, .string "m"]⟩,
    ⟨[float 0x8000000000000000, .null, .string "m"]⟩, ⟨[.null, .null, .string "m"]⟩,
    ⟨[.null, .null, .string "s"]⟩]

/-- Sensors by a key of two columns: two readings of one sensor are a block. -/
theorem LevelSpec.identity_of_layout_sensors :
    (Equivalence fun a b : Layout.sensors.WideRow =>
        Layout.sensors.root.info.sameEntity a.1 b.1 = .ok true) ∧
      ∃ before after,
        readable (Row.readings.map .row) = before ++ Row.readings.take 2 ++ after ∧
          IsBlock Layout.sensors.root.info.sameEntity before (Row.readings.take 2) after := by
  obtain ⟨hidentity, hgroups⟩ := identity_of_layout .sensors .sensors rfl
  refine ⟨(hidentity _ (Level.mem_preorder_self _)).2, ?_⟩
  exact hgroups (.ofDeliveries (Row.readings.map .row)) 10 none [] _ _ _ rfl rfl (by decide) .nil
    rfl rfl

end QueryPlans
