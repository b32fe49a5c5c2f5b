import QueryPlans.Proofs.Page.Prefix

/-!
# Proofs/Page/Ending — what the entry that ends a page shows

The continuation of a page is read off the last group, column by column, and written into the entry
of that group.  An entry names its navigations apart, as its level does
(`Level.NamedApart.nodup_of_reach?`), so routes over single-valued navigations reach everything that
writes can change, and `page_continues` says for each of them what has changed there.
-/

namespace QueryPlans

/-! ## Navigations by name -/

/-- A level that names its navigations apart, as all levels below it do. -/
inductive Level.NamedApart : Level → Prop
  | mk {info : LevelInfo} {children : List Level} (nodup : (children.map Level.label).Nodup)
    (below : ∀ child ∈ children, NamedApart child) : NamedApart (.mk info children)

/-- A level is labelled by its role. -/
theorem LevelSpec.label_of_place {spec : LevelSpec} {role : Role} {parent : Option Nat}
    {depth : Nat} {placed placed' : Placed} {level : Level}
    (h : spec.place role parent depth placed = .ok (level, placed')) :
    level.label = role.label := by
  obtain ⟨properties, keyColumns, navigations, continuation⟩ := spec
  rw [place] at h
  obtain ⟨⟨⟩, -, h⟩ := bind_eq_ok_iff.1 h
  obtain ⟨⟨children, after⟩, -, h⟩ := bind_eq_ok_iff.1 h
  cases h
  rfl

/-- Navigations are placed under the names that they have in the specification, which are apart. -/
theorem placeNavigations_namedApart {parent depth : Nat}
    {navigations : List (String × Cardinality × LevelSpec)}
    (ih : ∀ navigation ∈ navigations, ∀ role parent depth placed level placed',
      navigation.2.2.place role parent depth placed = .ok (level, placed') → level.NamedApart)
    {placed placed' : Placed} {levels : List Level}
    (h : placeNavigations parent depth navigations placed = .ok (levels, placed')) :
    levels.map Level.label = navigations.map Prod.fst ∧ ∀ level ∈ levels, level.NamedApart := by
  induction navigations generalizing placed levels with
  | nil =>
    rw [placeNavigations] at h
    cases h
    simp
  | cons navigation rest ihrest =>
    obtain ⟨name, cardinality, target⟩ := navigation
    rw [List.forall_mem_cons] at ih
    rw [placeNavigations] at h
    obtain ⟨⟨level, between⟩, hlevel, h⟩ := bind_eq_ok_iff.1 h
    obtain ⟨⟨others, after⟩, hothers, h⟩ := bind_eq_ok_iff.1 h
    cases h
    obtain ⟨hlabels, hbelow⟩ := ihrest ih.2 hothers
    refine ⟨?_, List.forall_mem_cons.2 ⟨ih.1 _ _ _ _ _ _ hlevel, hbelow⟩⟩
    rw [List.map_cons, List.map_cons, hlabels, LevelSpec.label_of_place hlevel]
    rfl

/-- **Placing gives levels that name their navigations apart.** -/
theorem LevelSpec.namedApart_of_place (spec : LevelSpec) :
    ∀ role parent depth placed level placed',
      spec.place role parent depth placed = .ok (level, placed') → level.NamedApart := by
  induction spec with
  | mk properties keyColumns navigations continuation ih =>
    intro role parent depth placed level placed' h
    rw [LevelSpec.place] at h
    obtain ⟨⟨⟩, hcheck, h⟩ := bind_eq_ok_iff.1 h
    obtain ⟨⟨children, after⟩, hchildren, h⟩ := bind_eq_ok_iff.1 h
    cases h
    obtain ⟨hlabels, hbelow⟩ := placeNavigations_namedApart ih hchildren
    exact .mk (hlabels ▸ (checkLevel_eq_ok_iff.1 hcheck).2.2) hbelow

/-- **In every layout the navigations of a level have names apart.** -/
theorem LevelSpec.namedApart_of_layout {spec : LevelSpec} {layout : Layout}
    (h : spec.layout = .ok layout) : layout.root.NamedApart := by
  obtain ⟨⟨_, hplace⟩, -⟩ := layoutWith_eq_ok_iff.1 h
  exact spec.namedApart_of_place _ _ _ _ _ _ hplace

/-- A layout continues by the columns that were declared for its root. -/
theorem LevelSpec.continuation_of_layout {spec : LevelSpec} {layout : Layout}
    (h : spec.layout = .ok layout) : layout.continuation = spec.continuation :=
  (layoutWith_eq_ok_iff.1 h).2.2.1

/-! ## Entries by name -/

variable {rows : List Row} {children : List Level} {navigations : List (String × Branch)}

/-- What came of a list came of one of its members. -/
theorem exists_of_mem_mapM {ε α β : Type} {f : α → Except ε β} {as : List α} {bs : List β} {b : β}
    (h : as.mapM f = .ok bs) (hb : b ∈ bs) : ∃ a ∈ as, f a = .ok b := by
  induction as generalizing bs with
  | nil =>
    cases h
    cases hb
  | cons a rest ih =>
    rw [List.mapM_cons] at h
    obtain ⟨first, hfirst, h⟩ := bind_eq_ok_iff.1 h
    obtain ⟨others, hothers, h⟩ := bind_eq_ok_iff.1 h
    cases h
    rcases List.mem_cons.1 hb with rfl | hb
    · exact ⟨a, List.mem_cons_self, hfirst⟩
    · obtain ⟨a', ha', heq⟩ := ih hothers hb
      exact ⟨a', List.mem_cons_of_mem _ ha', heq⟩

/-- Navigations have the names of their levels, and entities that were built by these. -/
theorem buildNavigations_named (h : buildNavigations rows children = .ok navigations) :
    navigations.map Prod.fst = children.map Level.label ∧
      ∀ name inner, (name, Branch.single (some inner)) ∈ navigations →
        ∃ child ∈ children, ∃ run, child.build run = .ok inner := by
  induction children generalizing navigations with
  | nil =>
    cases h
    simp
  | cons child rest ih =>
    rw [buildNavigations] at h
    obtain ⟨runs, -, h⟩ := bind_eq_ok_iff.1 h
    cases hfew : child.info.role.isSingle && decide (1 < runs.length) with
    | true =>
      rw [hfew] at h
      cases h
    | false =>
      rw [hfew] at h
      obtain ⟨entries, hentries, h⟩ := bind_eq_ok_iff.1 h
      obtain ⟨others, hothers, h⟩ := bind_eq_ok_iff.1 h
      cases h
      obtain ⟨hnames, hbuilt⟩ := ih hothers
      refine ⟨congrArg (child.label :: ·) hnames, fun name inner hmem => ?_⟩
      rcases List.mem_cons.1 hmem with hfirst | hmem
      · obtain ⟨-, hbranch⟩ := Prod.mk.inj hfirst
        split at hbranch
        · have hinner : inner ∈ entries :=
            List.mem_of_mem_head? (Branch.single.inj hbranch).symm
          obtain ⟨run, -, hrun⟩ := exists_of_mem_mapM hentries hinner
          exact ⟨child, List.mem_cons_self, run, hrun⟩
        · cases hbranch
      · obtain ⟨other, hother, run, hrun⟩ := hbuilt name inner hmem
        exact ⟨other, List.mem_cons_of_mem _ hother, run, hrun⟩

/-- An entity that a single-valued navigation leads to is found among the navigations. -/
theorem Entry.mem_of_single? {e inner : Entry} {step : String} (h : e.single? step = some inner) :
    (step, Branch.single (some inner)) ∈ e.navigations := by
  rw [single?] at h
  split at h
  · next entry hbranch =>
    subst h
    obtain ⟨⟨name, branch⟩, hfind, rfl⟩ := Option.map_eq_some_iff.1 hbranch
    obtain rfl : name = step := by simpa using List.find?_some hfind
    exact List.mem_of_find?_eq_some hfind
  · cases h

/-- The branches of an entry are what its children build of the rows. -/
theorem Level.navigations_of_build {level : Level} {run : Run} {e : Entry}
    (h : level.build run = .ok e) :
    buildNavigations run.rows level.children = .ok e.navigations := by
  obtain ⟨info, children⟩ := level
  rw [build] at h
  obtain ⟨properties, -, h⟩ := bind_eq_ok_iff.1 h
  obtain ⟨navigations, hnavigations, h⟩ := bind_eq_ok_iff.1 h
  cases h
  exact hnavigations

/-- **What a route reaches** names its navigations apart. -/
theorem Level.NamedApart.nodup_of_reach? {level : Level} {run : Run} {e inner : Entry}
    {route : List String} (h : level.NamedApart) (hbuild : level.build run = .ok e)
    (hreach : e.reach? route = some inner) : (inner.navigations.map Prod.fst).Nodup := by
  induction route generalizing level run e with
  | nil =>
    obtain ⟨hnodup, -⟩ := h
    cases hreach
    exact (buildNavigations_named (navigations_of_build hbuild)).1 ▸ hnodup
  | cons step route ih =>
    obtain ⟨-, hbelow⟩ := h
    obtain ⟨next, hnext, hinner⟩ := Option.bind_eq_some_iff.1 hreach
    obtain ⟨child, hchild, run', hrun⟩ := (buildNavigations_named
      (navigations_of_build hbuild)).2 step next (Entry.mem_of_single? hnext)
    exact ih (hbelow child hchild) hrun hinner

/-! ## The end of a page -/

namespace Materializer

/-- **The entry that ends a page** shows the continuation, read off its own group, and is otherwise
what it is without a page size.  The continuation has a value for each column that was declared for
it, in order.  A value reaches the property at the end of its path if the route leads over
single-valued navigations to an entity; of several with one path the last one stays.  Nothing else
is different at any entity that such a route reaches, and no other value changes anything. -/
theorem page_continues (spec : LevelSpec) (layout : Layout) (hlayout : spec.layout = .ok layout)
    (hcontinues : spec.continuation ≠ []) (deliveries : List Delivery)
    (hwide : ∀ row, .row row ∈ deliveries → layout.width ≤ row.width) (limit i : Nat)
    {entry' : Entry}
    (hyields : ((ofCursor layout (.ofDeliveries deliveries) limit).withPageSize (i + 1)).answer i =
      .ok (some entry')) :
    let full := ofCursor layout (.ofDeliveries deliveries) limit
    let page := full.withPageSize (i + 1)
    ∃ run entry, (layout.groups (readable deliveries))[i]? = some run.rows ∧
      layout.root.build run = .ok entry ∧ full.answer i = .ok (some entry) ∧
      (page.after (i + 1)).continuation = some ⟨spec.continuation.map fun column =>
        (column.property, lastValue column.column run.rows)⟩ ∧
      let writes := spec.continuation.map fun column =>
        (column.path, lastValue column.column run.rows)
      entry' = entry.write (writes.filter fun w => (entry.reach? w.1.dropLast).isSome) ∧
      ∀ route,
        (entry.reach? route = none → entry'.reach? route = none) ∧
        ∀ inner, entry.reach? route = some inner →
          (inner.navigations.map Prod.fst).Nodup ∧
          ∃ inner', entry'.reach? route = some inner' ∧
            Entry.Written writes route inner inner' := by
  intro full page
  have hprogress := Progress.ofDeliveries layout deliveries limit
  have hshows := LevelSpec.showsContinuation hlayout hwide
  rw [← LevelSpec.continuation_of_layout hlayout] at hcontinues ⊢
  cases (hprogress.closes_after hshows i).1 with
  | short hfull hpage _ => exact absurd (hpage.symm.trans hyields) (hfull entry')
  | @filled run entry hgroup hbuild hfull hpage hissued =>
    rw [if_neg hcontinues] at hissued
    rw [Layout.writes_continuationAfter] at hpage
    refine ⟨run, entry, hgroup, hbuild, hfull, hissued, ?_⟩
    intro writes
    obtain rfl : entry.write writes = entry' := by simpa using hpage.symm.trans hyields
    refine ⟨Entry.write_filter writes entry, fun route => ⟨fun hnone => ?_, fun inner hinner => ?_⟩⟩
    · rw [Entry.reach?_write, hnone, Option.map_none]
    · exact ⟨(LevelSpec.namedApart_of_layout hlayout).nodup_of_reach? hbuild hinner,
        Entry.written_of_reach? hinner writes⟩

/-- The last item of the first order is its second one, and it is shown twice. -/
theorem page_continues_orders :
    let page := (ofCursor .orders (.ofDeliveries Delivery.orders) 3).withPageSize 1
    let customer : Entry := .mk [("Id", .int 7), ("Last", .int 2)] []
    let items : List Entry := [.mk [("No", .int 1)] [], .mk [("No", .int 2)] []]
    page.answer 0 = .ok (some (.mk [("Id", .int 1), ("Last", .int 2)]
      [("Customer", .single (some customer)), ("Items", .collection items)])) ∧
    ∃ run : Run, (Layout.orders.groups (readable Delivery.orders))[0]? = some run.rows ∧
      (page.after 1).continuation =
        some ⟨[("No", lastValue 2 run.rows), ("No", lastValue 2 run.rows)]⟩ := by
  intro page customer items
  have hyields : page.answer 0 = .ok (some (.mk [("Id", .int 1), ("Last", .int 2)]
      [("Customer", .single (some customer)), ("Items", .collection items)])) := rfl
  obtain ⟨run, entry, hgroup, -, -, hissued, -⟩ := page_continues .orders .orders rfl
    (List.cons_ne_nil _ _) Delivery.orders Delivery.width_le_of_mem_orders 3 0 hyields
  exact ⟨hyields, run, hgroup, hissued⟩

end Materializer

end QueryPlans
