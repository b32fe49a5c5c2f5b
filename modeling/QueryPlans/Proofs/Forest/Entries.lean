import QueryPlans.Proofs.Forest.Runs
import QueryPlans.Proofs.Materializer

/-!
# Proofs/Forest/Entries — the materializer undoes flattening

What `Level.build` makes of the rows of an entity is the entry of the entity: its properties, and
under each navigation the entries of its own entities.  The runs of a navigation are those of its
siblings (`entityRuns_eq`), so this goes by induction on the level.  The materializer reads off one
root entity after the other and looks ahead at one row.
-/

namespace QueryPlans

/-! ## Entries of entities -/

mutual

/-- **The entry of an entity.** -/
def Level.entry : Level → Entity → Entry
  | .mk info children, .mk value branches =>
    .mk (info.values value) (branchEntries children branches)

/-- The entries of entities, navigation by navigation. -/
def branchEntries : List Level → List (List Entity) → List (String × Branch)
  | child :: rest, es :: more =>
    let entries := es.map child.entry
    let branch : Branch :=
      if child.info.role.isSingle then .single entries.head? else .collection entries
    (child.label, branch) :: branchEntries rest more
  | _, _ => []

end

/-- Siblings as the materializer needs them. -/
def SiblingsDiffer : SiblingRule := fun info es => AdjacentDiffer info es ∧ KeyedDiffer info es

instance (info : LevelInfo) (es : List Entity) : Decidable (SiblingsDiffer info es) :=
  inferInstanceAs (Decidable (_ ∧ _))

/-! ## Building -/

/-- What building has to do for every entity of a level. -/
def Level.Builds (level : Level) : Prop :=
  ∀ ⦃rowOf e⦄, level.Shown rowOf → level.Conforms SiblingsDiffer e →
    level.build (level.runOf rowOf e) = .ok (level.entry e)

/-- The navigations are built from rows of which each has a part; the rest is blank to it. -/
theorem buildNavigations_eq {children : List Level} {rowOf : Cells → Row}
    (hbuilds : ∀ child ∈ children, child.Builds) (hwf : ∀ child ∈ children, child.WellFormed)
    (hdisjoint : children.Pairwise fun a b =>
      a.info.subtreeColumns.Disjoint b.info.subtreeColumns)
    (hshown : ∀ child ∈ children, child.Shown rowOf) {branches : List (List Entity)}
    (hconforms : BranchesConform SiblingsDiffer children branches) (lead : List Cells)
    (hlead : ∀ child ∈ children, ∀ cells ∈ lead, ∀ c ∈ child.info.subtreeColumns,
      cells c = .null) :
    buildNavigations ((lead ++ flattenBranches children branches).map rowOf) children =
      .ok (branchEntries children branches) := by
  -- `lead` collects the rows of the navigations that are done, blank to all that are to come.
  induction children generalizing branches lead with
  | nil => rw [buildNavigations, branchEntries.eq_def]; rfl
  | cons child rest ih =>
    cases branches with
    | nil => exact absurd hconforms id
    | cons es more =>
      rw [List.forall_mem_cons] at hbuilds hwf hshown hlead
      rw [List.pairwise_cons] at hdisjoint
      obtain ⟨hsingle, ⟨hadjacent, hkeyed⟩, hentities, hmore⟩ := hconforms
      have htrail : ∀ cells ∈ flattenBranches rest more, ∀ c ∈ child.info.subtreeColumns,
          cells c = .null := by
        intro cells hcells c hc
        refine Level.blank_of_mem_flattenBranches
          (fun other hother => Level.blank_of_mem_flatten (hwf.2 other hother)) hcells ?_
        exact fun other hother hc' => hdisjoint.1 other hother hc hc'
      have hruns := entityRuns_eq hshown.1 hwf.1 (fun e he => (hentities e he).isPresentIn)
        hadjacent hkeyed hlead.1 htrail
      have hentries : (es.map (child.runOf rowOf)).mapM child.build = .ok (es.map child.entry) := by
        rw [List.mapM_map]
        exact mapM_eq_ok fun e he => hbuilds.1 hshown.1 (hentities e he)
      have hfew : (child.info.role.isSingle && decide (1 < es.length)) = false := by
        cases hrole : child.info.role.isSingle with
        | false => rfl
        | true => simpa using hsingle hrole
      have hlead' : ∀ other ∈ rest, ∀ cells ∈ lead ++ es.flatMap child.flatten,
          ∀ c ∈ other.info.subtreeColumns, cells c = .null := by
        intro other hother cells hcells c hc
        rcases List.mem_append.1 hcells with hcells | hcells
        · exact hlead.2 other hother cells hcells c hc
        · obtain ⟨e, -, he⟩ := List.mem_flatMap.1 hcells
          exact Level.blank_of_mem_flatten hwf.1 e cells he c fun hc' =>
            hdisjoint.1 other hother hc' hc
      have hrest := ih hbuilds.2 hwf.2 hdisjoint.2 hshown.2 hmore _ hlead'
      rw [flattenBranches, ← List.append_assoc, buildNavigations, hruns, ok_bind, List.length_map,
        hfew, hrest, branchEntries]
      change ((es.map (child.runOf rowOf)).mapM child.build >>= _) = _
      rw [hentries]
      rfl

/-- **Building undoes flattening**, entity by entity. -/
theorem Level.builds (level : Level) (hwf : level.WellFormed) : level.Builds := by
  induction level with
  | mk info children ih =>
    intro rowOf e hshown hconforms
    obtain ⟨owns, below⟩ := hwf
    obtain ⟨value, branches⟩ := e
    obtain ⟨lead, hlead, hflatten⟩ := Level.flatten_eq info children value branches
    have hread := owns.read_eq (hshown.headRow (e := .mk value branches) (.mk owns below))
    have hnavigations := buildNavigations_eq
      (fun child hchild => ih child hchild (below child hchild)) below owns.disjoint_siblings
      (fun child hchild => hshown.below owns hchild value) hconforms.2 lead
      (fun child _ cells hcells c _ => by rw [hlead cells hcells]; rfl)
    rw [Level.build, Level.first_runOf, hread, ok_bind, Level.rows_runOf, hflatten, List.map_map,
      hnavigations]
    rfl

/-! ## Draining -/

/-- A materializer that awaits the rows of a forest yields the entries of its roots. -/
theorem drains_of_awaits {layout : Layout} {rowOf : Cells → Row} {limit : Nat}
    (hwf : layout.root.WellFormed) (hshown : layout.root.Shown rowOf) {forest : List Entity}
    (hroots : AdjacentDiffer layout.root.info forest)
    (hentities : ∀ e ∈ forest, layout.root.Conforms SiblingsDiffer e)
    (hlimit : ∀ e ∈ forest, (layout.root.flatten e).length ≤ limit) {m : Materializer}
    (h : m.Awaits layout limit ((forest.flatMap layout.root.flatten).map rowOf)) :
    m.Drains (forest.map layout.root.entry) none := by
  induction forest generalizing m with
  | nil =>
    obtain ⟨m', hnext⟩ := h.next_of_nil
    exact .done hnext
  | cons e rest ih =>
    rw [List.forall_mem_cons] at hentities hlimit
    rw [List.flatMap_cons, List.map_append, layout.root.map_flatten, List.cons_append] at h
    have hfirst := hshown.headRow (e := e) hwf
    have hpresent : layout.root.info.isPresent (layout.root.headRow rowOf e) = .ok true :=
      hshown.isPresent_of_mem hwf hentities.1.isPresentIn (List.head_mem _)
    -- The rows of an entity are one group: they show its values, and the next entity has others.
    have hsame : ∀ row ∈ (layout.root.flatten e).tail.map rowOf,
        layout.root.info.sameEntity (layout.root.headRow rowOf e) row = .ok true := by
      intro row hrow
      obtain ⟨cells, hcells, rfl⟩ := List.mem_map.1 hrow
      exact hshown.sameEntity_of_mem hwf (List.mem_of_mem_tail hcells)
    have hother : ∀ row ∈ ((rest.flatMap layout.root.flatten).map rowOf).head?,
        layout.root.info.sameEntity (layout.root.headRow rowOf e) row = .ok false := by
      intro row hrow
      cases rest with
      | nil => cases hrow
      | cons e' others =>
        rw [List.flatMap_cons, List.map_append, layout.root.map_flatten] at hrow
        obtain rfl : layout.root.headRow rowOf e' = row := Option.some.inj hrow
        have hdiffer := List.isChain_cons_cons.1 hroots
        rw [hwf.owns.sameEntity_eq hfirst (hshown.headRow hwf), hdiffer.1]
    have hlength : ((layout.root.flatten e).tail.map rowOf).length + 1 ≤ limit := by
      have hpos := List.length_pos_of_ne_nil (layout.root.flatten_ne_nil e)
      rw [List.length_map, List.length_tail]
      omega
    obtain ⟨m', hnext, hawaits⟩ := h.next_of_group hpresent hsame hother
      (hlength.trans (Nat.le_max_left ..))
      (layout.root.builds hwf hshown hentities.1)
    exact .entry hnext (ih hroots.of_cons hentities.2 hlimit.2 hawaits)

/-- **The materializer undoes flattening**: over the rows of a conforming forest it yields the
entries of the roots in order and comes to its end without a fault. -/
theorem drains_flatten (spec : LevelSpec) (layout : Layout) (hlayout : spec.layout = .ok layout)
    (forest : List Entity) (hforest : layout.Conforms SiblingsDiffer forest) (limit : Nat)
    (hlimit : ∀ e ∈ forest, (layout.root.flatten e).length ≤ limit) (cursor : Cursor)
    (hcursor : cursor.Serves (layout.flatten forest)) :
    (Materializer.ofCursor layout cursor limit).Drains (forest.map layout.root.entry) none :=
  drains_of_awaits (spec.wellFormed_of_layout hlayout) (spec.shown_of_layout hlayout)
    hforest.roots hforest.entities hlimit (Materializer.awaits_ofCursor hcursor)

/-- Two travellers, one of them without a trip, come back from their three rows. -/
theorem drains_flatten_travellers :
    LevelSpec.travellers.layout = .ok .travellers ∧
      Layout.travellers.flatten [.traveller 1 [10, 11], .traveller 2 []] =
        [⟨[.int 1, .int 10]⟩, ⟨[.int 1, .int 11]⟩, ⟨[.int 2, .null]⟩] ∧
      (Materializer.ofCursor .travellers (.ofDeliveries
          [.row ⟨[.int 1, .int 10]⟩, .row ⟨[.int 1, .int 11]⟩, .row ⟨[.int 2, .null]⟩]) 2).Drains
        [.mk [("Id", .int 1)] [("Trips", .collection
            [.mk [("Trip", .int 10)] [], .mk [("Trip", .int 11)] []])],
          .mk [("Id", .int 2)] [("Trips", .collection [])]] none := by
  let forest : List Entity := [.traveller 1 [10, 11], .traveller 2 []]
  have hserves := Cursor.serves_ofDeliveries (Layout.travellers.flatten forest)
  exact ⟨rfl, rfl, drains_flatten .travellers .travellers rfl forest ⟨by decide, by decide⟩ 2
    (by decide) _ hserves⟩

end QueryPlans
