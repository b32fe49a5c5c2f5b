import QueryPlans.Proofs.Ownership.Holding

/-!
# Proofs/Ownership/Paths — what holds at every level of what was built

A path of positions leads from the root to a level, and to all entities of that level
(`holders`).  Step by step along the path the rows of the entities there are the rows on which the
level is present, in order, so every such row is owned by exactly one of them (`holders_spec`).
Hence no entity is lost, none is invented and none is there twice (`drains_owned`).
-/

namespace QueryPlans

variable {α : Type}

/-- The level to which positions lead. -/
def Level.follow? : List Nat → Level → Option Level
  | [], level => some level
  | k :: path, level => level.children[k]?.bind (follow? path)

/-- **All entities of a level**, in order. -/
def holders : List Nat → List (Holding α) → List (Holding α)
  | [], hs => hs
  | k :: path, hs => holders path (hs.flatMap fun h => h.branch k)

variable {path : List Nat} {level target : Level} {cells : α → Cells} {hs : List (Holding α)}

/-- The columns of a level belong to every level above it. -/
theorem Level.subtree_of_follow (hwf : level.WellFormed)
    (hfollow : level.follow? path = some target) :
    ∀ c ∈ target.info.columns, c ∈ level.info.subtreeColumns := by
  induction path generalizing level with
  | nil =>
    cases hfollow
    exact fun c hc => hwf.owns.subtree_of_mem hc
  | cons k path ih =>
    obtain ⟨child, hchild, hfollow⟩ := Option.bind_eq_some_iff.1 hfollow
    have hmem := List.mem_of_getElem? hchild
    exact fun c hc => hwf.owns.subtree_of_child hmem (ih (hwf.child hmem) hfollow c hc)

/-- A row that shows a level shows something below every level above it. -/
theorem Level.isSubtreePresentIn_of_follow (hwf : level.WellFormed)
    (hfollow : level.follow? path = some target) {row : Cells}
    (hpresent : target.info.isPresentIn row = true) : level.info.isSubtreePresentIn row = true := by
  obtain ⟨c, hc, hvalue⟩ := List.any_eq_true.1 hpresent
  exact List.any_eq_true.2 ⟨c, level.subtree_of_follow hwf hfollow c hc, hvalue⟩

/-- The rows of the entities of one navigation are those rows of their parents that show it. -/
theorem flatMap_branch_rows {child : Level} {k : Nat} (hchild : level.children[k]? = some child)
    (hsettles : ∀ h ∈ hs, level.Settles cells h) :
    (hs.flatMap fun h => h.branch k).flatMap Holding.rows =
      (hs.flatMap Holding.rows).filter fun a => child.info.isPresentIn (cells a) := by
  rw [List.flatMap_assoc, List.filter_flatMap]
  refine List.flatMap_congr fun h hh => ?_
  rw [List.flatMap_def, ((hsettles h hh).branch hchild).1.shares.flatten_eq]

/-- **Every row that shows a level** is owned by one of its entities, once and in order. -/
theorem holders_spec (hwf : level.WellFormed) (hfollow : level.follow? path = some target)
    (hsettles : ∀ h ∈ hs, level.Settles cells h)
    (hpresent : ∀ a ∈ hs.flatMap Holding.rows, level.info.isPresentIn (cells a) = true) :
    (holders path hs).flatMap Holding.rows =
        (hs.flatMap Holding.rows).filter (fun a => target.info.isPresentIn (cells a)) ∧
      ∀ h ∈ holders path hs, target.Settles cells h := by
  induction path generalizing level hs with
  | nil =>
    cases hfollow
    exact ⟨(List.filter_eq_self.2 hpresent).symm, hsettles⟩
  | cons k path ih =>
    obtain ⟨child, hchild, hfollow⟩ := Option.bind_eq_some_iff.1 hfollow
    have hmem := List.mem_of_getElem? hchild
    have hrows := flatMap_branch_rows hchild hsettles
    have hbelow : ∀ h ∈ hs.flatMap fun h => h.branch k, child.Settles cells h := by
      intro h' hh'
      obtain ⟨h, hh, hh'⟩ := List.mem_flatMap.1 hh'
      exact ((hsettles h hh).branch hchild).2 h' hh'
    have hshown : ∀ a ∈ (hs.flatMap fun h => h.branch k).flatMap Holding.rows,
        child.info.isPresentIn (cells a) = true := by
      rw [hrows]
      exact fun a ha => (List.mem_filter.1 ha).2
    obtain ⟨howned, hends⟩ := ih (hwf.child hmem) hfollow hbelow hshown
    refine ⟨?_, hends⟩
    rw [holders, howned, hrows, List.filter_filter]
    refine List.filter_congr fun a ha => ?_
    obtain ⟨h, hh, ha⟩ := List.mem_flatMap.1 ha
    -- Where the level at the end of the path is present, the one on the way has to be.
    cases htarget : target.info.isPresentIn (cells a) with
    | false => rfl
    | true =>
      rw [((hsettles h hh).branch hchild).1.nested a ha
        (child.isSubtreePresentIn_of_follow (hwf.child hmem) hfollow htarget)]
      rfl

/-! ## Rows by position -/

/-- The row at a position. -/
def rowAt (rows : List Row) (i : Nat) : Row := rows[i]?.getD ⟨[]⟩

theorem map_rowAt (rows : List Row) : (List.range rows.length).map (rowAt rows) = rows := by
  refine List.ext_getElem (by simp) fun i hi hi' => ?_
  simp [rowAt, hi']

/-- **No entity is lost, invented or there twice**: what a materializer yields that comes to its end
is a forest whose entities own rows.  The rows are shared out among the roots, and the rows of an
entity among the entities of each of its navigations; at every level the rows that are owned are
those that show the level, each of them once. -/
theorem drains_owned (spec : LevelSpec) (layout : Layout) (hlayout : spec.layout = .ok layout)
    (rows : List Row) (cursor : Cursor) (hcursor : cursor.Serves rows) (limit : Nat)
    (entries : List Entry)
    (hdrains : (Materializer.ofCursor layout cursor limit).Drains entries none) :
    ∃ forest : List (Holding Nat),
      entries = forest.map (fun h => layout.root.entry (h.entity (cellsOf (rowAt rows)))) ∧
      layout.root.info.Shares (cellsOf (rowAt rows)) (List.range rows.length)
        (forest.map Holding.rows) ∧
      ∀ path level, layout.root.follow? path = some level →
        (holders path forest).flatMap Holding.rows = (List.range rows.length).filter
          (fun i => level.info.isPresentIn (cellsOf (rowAt rows) i)) ∧
        ∀ h ∈ holders path forest, ∀ (k : Nat) (child : Level), level.children[k]? = some child →
          child.info.Divides (cellsOf (rowAt rows)) h.rows (h.branch k) := by
  have hwf := spec.wellFormed_of_layout hlayout
  have hawaits : (Materializer.ofCursor layout cursor limit).Awaits layout limit rows :=
    Materializer.awaits_ofCursor hcursor
  rw [← map_rowAt rows] at hawaits
  obtain ⟨hentries, hsettles, hpresent⟩ := drained_of_drains hwf hawaits hdrains
  let forest := (layout.root.info.runs (cellsOf (rowAt rows)) (List.range rows.length)).map
    (layout.root.holding (rowAt rows))
  have hshares : layout.root.info.Shares (cellsOf (rowAt rows)) (List.range rows.length)
      (forest.map Holding.rows) := by
    rw [map_rows_hold]
    exact LevelInfo.shares_runs hwf.owns (cellsOf (rowAt rows)) (List.range rows.length)
  have hroots : forest.flatMap Holding.rows = List.range rows.length := by
    rw [List.flatMap_def, hshares.flatten_eq]
    exact List.filter_eq_self.2 hpresent
  have hshown : ∀ i ∈ forest.flatMap Holding.rows,
      layout.root.info.isPresentIn (cellsOf (rowAt rows) i) = true := fun i hi =>
    hpresent i (hroots ▸ hi)
  refine ⟨forest, hentries, hshares, fun path level hfollow => ?_⟩
  obtain ⟨howned, hends⟩ := holders_spec hwf hfollow (List.forall_mem_map.2 hsettles) hshown
  exact ⟨howned.trans (by rw [hroots]), fun h hh k child hchild => ((hends h hh).branch hchild).1⟩

/-- Two travellers, the first with two trips and a row that has none between them. -/
theorem drains_owned_travellers :
    let rows : List Row := [⟨[.int 1, .int 10]⟩, ⟨[.int 1, .int 10]⟩, ⟨[.int 1, .null]⟩,
      ⟨[.int 1, .int 11]⟩, ⟨[.int 2, .null]⟩]
    let entries : List Entry := [
      .mk [("Id", .int 1)] [("Trips", .collection
        [.mk [("Trip", .int 10)] [], .mk [("Trip", .int 11)] []])],
      .mk [("Id", .int 2)] [("Trips", .collection [])]]
    (Materializer.ofCursor .travellers (.ofDeliveries (rows.map .row)) 4).Drains entries none ∧
    ∃ forest : List (Holding Nat),
      entries = forest.map
        (fun h => Layout.travellers.root.entry (h.entity (cellsOf (rowAt rows)))) ∧
      (holders [] forest).flatMap Holding.rows = [0, 1, 2, 3, 4] ∧
      (holders [0] forest).flatMap Holding.rows = [0, 1, 3] := by
  intro rows entries
  have hdrains : (Materializer.ofCursor .travellers (.ofDeliveries (rows.map .row)) 4).Drains
      entries none :=
    .of_fst_some rfl (.of_fst_some rfl (.of_fst_none rfl))
  obtain ⟨forest, hentries, -, hlevels⟩ := drains_owned .travellers .travellers rfl rows _
    (Cursor.serves_ofDeliveries rows) 4 entries hdrains
  obtain ⟨trips, htrips⟩ : ∃ trips, Layout.travellers.root.follow? [0] = some trips := ⟨_, rfl⟩
  refine ⟨hdrains, forest, hentries, ?_, ?_⟩
  · rw [(hlevels [] Layout.travellers.root rfl).1]
    decide
  · rw [(hlevels [0] trips htrips).1]
    cases htrips
    decide

end QueryPlans
