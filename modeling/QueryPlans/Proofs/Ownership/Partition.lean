import QueryPlans.Proofs.Ownership.Identity
import QueryPlans.Proofs.Ownership.Offences

/-!
# Proofs/Ownership/Partition — the ranges that runs take up

The blocks of a list take up ranges of it that follow one another (`spansFrom`).  The runs of a
level take up those ranges where the level is present, so together they cover just the rows that
show the level, and each is a maximal range of rows of one entity.  Splitting rows gives exactly
these ranges, in which no key comes twice, unless a row offends (`LevelSpec.entityRuns_partition`).
-/

namespace QueryPlans

variable {α : Type}

/-! ## Ranges of a list -/

/-- The positions from one up to another. -/
structure Span where
  start : Nat
  stop : Nat

namespace Span

/-- What stands in a range. -/
def of (s : Span) (as : List α) : List α := (as.take s.stop).drop s.start

/-- The range of a part of a list. -/
def behind (before part : List α) : Span := ⟨before.length, before.length + part.length⟩

variable {before part after : List α}

theorem take_behind : (before ++ part ++ after).take (behind before part).start = before := by
  rw [List.append_assoc]
  exact List.take_left

theorem of_behind : (behind before part).of (before ++ part ++ after) = part := by
  rw [of, behind, ← List.length_append, List.take_left, List.drop_left]

theorem drop_behind : (before ++ part ++ after).drop (behind before part).stop = after := by
  rw [behind, ← List.length_append]
  exact List.drop_left

/-- A span has what stands between its ends. -/
theorem mem_of {s : Span} {as : List α} {i : Nat} {a : α} (ha : as[i]? = some a)
    (hle : s.start ≤ i) (hlt : i < s.stop) : a ∈ s.of as := by
  refine List.mem_of_getElem? (i := i - s.start) ?_
  rw [of, List.getElem?_drop, Nat.add_sub_cancel' hle, List.getElem?_take_of_lt hlt, ha]

end Span

/-- The ranges of parts that follow one another from a position on. -/
def spansFrom (n : Nat) : List (List α) → List Span
  | [] => []
  | part :: rest => ⟨n, n + part.length⟩ :: spansFrom (n + part.length) rest

/-- A span stands behind the parts before it. -/
theorem mem_spansFrom {n : Nat} {parts : List (List α)} {s : Span} (h : s ∈ spansFrom n parts) :
    ∃ before part after, parts = before ++ part :: after ∧
      s = ⟨n + before.flatten.length, n + before.flatten.length + part.length⟩ := by
  induction parts generalizing n with
  | nil => cases h
  | cons part rest ih =>
    rcases List.mem_cons.1 h with rfl | h
    · exact ⟨[], part, rest, rfl, rfl⟩
    · obtain ⟨before, part', after, rfl, rfl⟩ := ih h
      refine ⟨part :: before, part', after, rfl, ?_⟩
      simp only [List.flatten_cons, List.length_append, Nat.add_assoc]

/-- **Ranges follow one another.** -/
theorem pairwise_spansFrom (n : Nat) (parts : List (List α)) :
    (spansFrom n parts).Pairwise fun s t => s.stop ≤ t.start := by
  induction parts generalizing n with
  | nil => exact .nil
  | cons part rest ih =>
    refine .cons (fun t ht => ?_) (ih _)
    obtain ⟨before, _, _, -, rfl⟩ := mem_spansFrom ht
    exact Nat.le_add_right _ _

/-- **Ranges leave nothing out.** -/
theorem exists_mem_spansFrom {n i : Nat} {parts : List (List α)} (hn : n ≤ i)
    (hi : i < n + parts.flatten.length) : ∃ s ∈ spansFrom n parts, s.start ≤ i ∧ i < s.stop := by
  induction parts generalizing n with
  | nil => exact absurd hi (Nat.not_lt.2 hn)
  | cons part rest ih =>
    by_cases hpart : i < n + part.length
    · exact ⟨_, List.mem_cons_self, hn, hpart⟩
    · rw [List.flatten_cons, List.length_append, ← Nat.add_assoc] at hi
      obtain ⟨s, hs, hmem⟩ := ih (Nat.not_lt.1 hpart) hi
      exact ⟨s, List.mem_cons_of_mem _ hs, hmem⟩

/-- **Spans give the parts back.** -/
theorem map_of_spansFrom (before : List α) (parts : List (List α)) :
    (spansFrom before.length parts).map (Span.of · (before ++ parts.flatten)) = parts := by
  induction parts generalizing before with
  | nil => rfl
  | cons part rest ih =>
    have hrest := ih (before ++ part)
    rw [List.length_append] at hrest
    rw [spansFrom, List.map_cons, List.flatten_cons, ← List.append_assoc, hrest]
    exact congrArg (· :: rest) Span.of_behind

/-! ## Ranges of a level -/

/-- **The ranges of a level** in some rows: they follow one another and cover just the rows that
show the level, each is a maximal range of rows that show one entity, and no two of them show one
entity with a key. -/
structure LevelInfo.Partitions (level : LevelInfo) (rows : List Row) (spans : List Span) :
    Prop where
  bounds : ∀ s ∈ spans, s.start < s.stop ∧ s.stop ≤ rows.length
  increasing : spans.Pairwise fun s t => s.stop ≤ t.start
  covers : ∀ i row, rows[i]? = some row →
    ((∃ s ∈ spans, s.start ≤ i ∧ i < s.stop) ↔ level.isPresent row = .ok true)
  maximal : ∀ s ∈ spans,
    IsBlock level.sameEntity (rows.take s.start) (s.of rows) (rows.drop s.stop)
  keyed : spans.Pairwise fun s t => ∀ a ∈ s.of rows, ∀ b ∈ t.of rows,
    level.hasKey a = .ok true → level.hasKey b = .ok true → level.sameEntity a b = .ok false

namespace LevelInfo

/-- The ranges of the blocks that show a level. -/
def spans (level : LevelInfo) (rows : List Row) : List Span :=
  (spansFrom 0 (level.blocks Row.toCells rows)).filter fun s =>
    (s.of rows).any fun row => level.isPresentIn row.toCells

variable {level : LevelInfo} {children : List Level} {rows : List Row} {s : Span}

/-- **The runs of a level** are what stands in its ranges. -/
theorem map_of_spans (level : LevelInfo) (rows : List Row) :
    (level.spans rows).map (Span.of · rows) = level.runs Row.toCells rows := by
  have hall : (spansFrom 0 (level.blocks Row.toCells rows)).map (Span.of · rows) =
      level.blocks Row.toCells rows := by
    have hmap := map_of_spansFrom [] (level.blocks Row.toCells rows)
    rwa [List.nil_append, flatten_blocks] at hmap
  have hfilter := List.filter_map (f := (Span.of · rows))
    (p := fun block => block.any fun row => level.isPresentIn row.toCells)
    (l := spansFrom 0 (level.blocks Row.toCells rows))
  rw [hall] at hfilter
  exact hfilter.symm

/-- The span of a block, with the blocks before and behind it. -/
theorem exists_of_mem_spans (h : s ∈ level.spans rows) :
    ∃ before block after, level.blocks Row.toCells rows = before ++ block :: after ∧
      s = .behind before.flatten block ∧ rows = before.flatten ++ block ++ after.flatten := by
  obtain ⟨before, block, after, hblocks, rfl⟩ := mem_spansFrom (List.mem_of_mem_filter h)
  refine ⟨before, block, after, hblocks, by simp [Span.behind], ?_⟩
  rw [← level.flatten_blocks Row.toCells rows, hblocks, List.flatten_append, List.flatten_cons,
    List.append_assoc]

/-- A span has a block. -/
theorem of_mem_blocks (h : s ∈ level.spans rows) :
    s.of rows ∈ level.blocks Row.toCells rows := by
  have hmem : s.of rows ∈ (level.spans rows).map (Span.of · rows) := List.mem_map_of_mem h
  rw [map_of_spans] at hmem
  exact List.mem_of_mem_filter hmem

/-- **The ranges of a level cover the rows that show it.** -/
theorem exists_mem_spans_iff (owns : Level.Owns level children) {i : Nat} {row : Row}
    (hrow : rows[i]? = some row) :
    (∃ s ∈ level.spans rows, s.start ≤ i ∧ i < s.stop) ↔ level.isPresentIn row.toCells = true := by
  constructor
  · rintro ⟨s, hs, hle, hlt⟩
    rw [← any_eq_of_mem_blocks owns (of_mem_blocks hs) (Span.mem_of hrow hle hlt)]
    exact (List.mem_filter.1 hs).2
  · intro hpresent
    have hi : i < 0 + (level.blocks Row.toCells rows).flatten.length := by
      rw [flatten_blocks, Nat.zero_add]
      exact (List.getElem?_eq_some_iff.1 hrow).1
    obtain ⟨s, hs, hle, hlt⟩ := exists_mem_spansFrom (Nat.zero_le i) hi
    refine ⟨s, List.mem_filter.2 ⟨hs, List.any_eq_true.2 ⟨row, ?_, hpresent⟩⟩, hle, hlt⟩
    exact Span.mem_of hrow hle hlt

/-- **Rows that are split are partitioned** by the ranges of the level. -/
theorem partitions_spans {runs : Runs} (owns : Level.Owns level children)
    (hshown : level.ShownIn rows) (h : runs.Splits level id rows) :
    level.Partitions rows (level.spans rows) where
  bounds s hs := by
    obtain ⟨before, block, after, hblocks, rfl, hrows⟩ := exists_of_mem_spans hs
    have hmem : block ∈ level.blocks Row.toCells rows := by simp [hblocks]
    have hpos := List.length_pos_of_ne_nil (List.ne_nil_of_mem_splitBy hmem)
    have hlength := congrArg List.length hrows
    rw [List.length_append, List.length_append] at hlength
    exact ⟨Nat.lt_add_of_pos_right hpos, hlength ▸ Nat.le_add_right _ _⟩
  increasing := (pairwise_spansFrom 0 _).filter _
  covers i row hrow := by
    rw [exists_mem_spans_iff owns hrow, hshown.isPresent_eq owns (List.mem_of_getElem? hrow),
      Except.ok.injEq]
  maximal s hs := by
    obtain ⟨before, block, after, hblocks, rfl, hrows⟩ := exists_of_mem_spans hs
    have hblock := (level.isEquivalence_cells Row.toCells).isBlock
      (fun a ha b hb => hshown.sameEntity_eq owns ha hb) hblocks
    rw [hrows, Span.take_behind, Span.of_behind, Span.drop_behind]
    exact hblock
  keyed := by
    have hkeyed : (runs.toList.map Run.rows).Pairwise fun p q => ∀ a ∈ p, ∀ b ∈ q,
        level.hasKey a = .ok true → level.hasKey b = .ok true →
          level.sameEntity a b = .ok false := by
      rw [List.pairwise_map]
      refine h.keyed.imp_of_mem fun {p q} hp hq hapart a ha b hb hkeya hkeyb => ?_
      have hsamea := h.isSame_of_mem_run hp ha
      have hsameb := h.isSame_of_mem_run hq hb
      rw [hshown.sameEntity_eq owns (h.mem_of_mem_run hp ha) (h.mem_of_mem_run hq hb),
        Except.ok.injEq]
      have hfirsts := hapart ((isSame_iff.1 hsamea).1.trans (hasKey_of_ok hkeya))
        ((isSame_iff.1 hsameb).1.trans (hasKey_of_ok hkeyb))
      rw [Bool.eq_false_iff] at hfirsts ⊢
      exact fun hsame => hfirsts (isSame_trans (isSame_trans hsamea hsame) (isSame_symm hsameb))
    rw [h.map_rows, ← map_of_spans, List.pairwise_map] at hkeyed
    exact hkeyed

end LevelInfo

/-- **Splitting rows into runs computes the exact partition.** -/
theorem LevelSpec.entityRuns_partition (spec : LevelSpec) (layout : Layout)
    (h : spec.layout = .ok layout) (level : Level) (hlevel : level ∈ layout.levels)
    (rows : List Row) (hwide : ∀ row ∈ rows, layout.width ≤ row.width) :
    ((∃ e, entityRuns level.info rows = .error e) ↔
      ∃ before row after e, rows = before ++ row :: after ∧ level.info.Offends before row e) ∧
    (∀ e, entityRuns level.info rows = .error e ↔
      ∃ before row after, rows = before ++ row :: after ∧ level.info.Offends before row e ∧
        level.info.IsOrderly before) ∧
    ∀ runs, entityRuns level.info rows = .ok runs → ∃ spans : List Span,
      runs.map Run.rows = spans.map (Span.of · rows) ∧ level.info.Partitions rows spans := by
  have owns := owns_of_mem_levels h hlevel
  have hshown : level.info.ShownIn rows := fun row hrow =>
    shows_of_mem_levels h hlevel (hwide row hrow)
  refine ⟨?_, fun e => entityRuns_eq_error_iff owns hshown, fun runs hruns => ?_⟩
  · rw [exists_entityRuns_error_iff owns hshown, LevelInfo.IsOrderly]
    push Not
    rfl
  · rw [← List.map_id rows] at hruns
    obtain ⟨s, rfl, hsplits⟩ := entityRuns_ok owns hruns
    refine ⟨level.info.spans rows, ?_, LevelInfo.partitions_spans owns hshown hsplits⟩
    rw [hsplits.map_rows, LevelInfo.map_of_spans]

/-- Shipments of parcels, each with items. -/
def LevelSpec.shipments : LevelSpec :=
  (empty.key "Id" 0).navigation "Parcels" .collection
    ((empty.key "Id" 1).navigation "Items" .collection (empty.key "Id" 2))

/-- Parcels by `Id`, each with its items. -/
def Level.parcels : Level :=
  .mk ⟨1, .navigation "Parcels" .collection, [⟨"Id", 1⟩], [1], [1], [1, 2], some 0, 1⟩
    [.mk ⟨2, .navigation "Items" .collection, [⟨"Id", 2⟩], [2], [2], [2], some 1, 2⟩ []]

/-- Shipments by `Id`: two levels of keyed collections below the root. -/
def Layout.shipments : Layout where
  root := .mk ⟨0, .root, [⟨"Id", 0⟩], [0], [0], [0, 1, 2], none, 0⟩ [.parcels]
  continuation := []
  width := 3

/-- A parcel with two items and one without any, apart from each other. -/
def Row.parcels : List Row :=
  [⟨[.int 9, .int 1, .int 5]⟩, ⟨[.int 9, .int 1, .int 6]⟩, ⟨[.int 9, .null, .null]⟩,
    ⟨[.int 9, .int 2, .null]⟩]

/-- The parcels have two ranges.  When the first one comes again it offends. -/
theorem LevelSpec.entityRuns_partition_parcels :
    (∃ spans : List Span, spans.length = 2 ∧
      Level.parcels.info.Partitions Row.parcels spans) ∧
    ∃ before row after, Row.parcels ++ [⟨[.int 9, .int 1, .int 5]⟩] = before ++ row :: after ∧
      Level.parcels.info.Offends before row (.entityReappeared "Parcels") ∧
        Level.parcels.info.IsOrderly before := by
  have hmem : Level.parcels ∈ Layout.shipments.levels := .tail _ (.head _)
  constructor
  · obtain ⟨-, -, hruns⟩ :=
      entityRuns_partition .shipments .shipments rfl .parcels hmem Row.parcels (by decide)
    obtain ⟨spans, hrows, hspans⟩ := hruns _ rfl
    have hlength := congrArg List.length hrows
    rw [List.length_map, List.length_map] at hlength
    exact ⟨spans, hlength.symm, hspans⟩
  · obtain ⟨-, hfirst, -⟩ := entityRuns_partition .shipments .shipments rfl .parcels hmem
      (Row.parcels ++ [⟨[.int 9, .int 1, .int 5]⟩]) (by decide)
    exact (hfirst _).1 rfl

end QueryPlans
