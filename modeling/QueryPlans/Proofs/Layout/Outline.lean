import Mathlib.Data.List.Induction
import QueryPlans.Proofs.Layout.WellFormed

/-!
# Proofs/Layout/Outline — which descriptions have a layout

The outline of a description lists its levels, each before those below it (`LevelSpec.outline`).
Placing goes through the outline and keeps to it in its faults: what it refuses is the first level
that has no columns, shares one with a level before it or repeats a navigation.  So the descriptions
with a layout are the sound ones whose columns the arithmetic can count up
(`LevelSpec.exists_layout_iff`), and any other is refused for the first of its defects
(`LevelSpec.layout_eq_error_iff`).
-/

namespace QueryPlans

/-! ## Outlines -/

/-- A level of a description, apart from those below it. -/
structure Site where
  /-- The navigations that lead to the level from the root. -/
  path : List String
  role : Role
  properties : List PropertyColumn
  keyColumns : List Nat
  navigations : List (String × Cardinality)

namespace Site

/-- The columns that a level declares. -/
def columns (site : Site) : List Nat :=
  site.properties.map PropertyColumn.column ++ site.keyColumns

/-- The names of the navigations that a level declares. -/
def names (site : Site) : List String := site.navigations.map Prod.fst

end Site

mutual

/-- The levels of a description, each before those below it. -/
def LevelSpec.sites (path : List String) (role : Role) : LevelSpec → List Site
  | .mk properties keyColumns navigations _ =>
    let declared := navigations.map fun navigation => (navigation.1, navigation.2.1)
    ⟨path, role, properties, keyColumns, declared⟩ :: sitesBelow path navigations

/-- The levels of several navigations in order. -/
def sitesBelow (path : List String) : List (String × Cardinality × LevelSpec) → List Site
  | [] => []
  | (name, cardinality, target) :: rest =>
    target.sites (path ++ [name]) (.navigation name cardinality) ++ sitesBelow path rest

end

/-- **The outline of a description.** -/
def LevelSpec.outline (spec : LevelSpec) : List Site := spec.sites [] .root

/-- The columns that a description reads: those of its levels, and those it continues by. -/
def LevelSpec.columns (spec : LevelSpec) : List Nat :=
  spec.outline.flatMap Site.columns ++ spec.continuation.map ContinuationColumn.column

/-- Descriptions whose columns have successors, as far as this matters. -/
def LevelSpec.Fits (spec : LevelSpec) (arithmetic : Arithmetic) : Prop :=
  arithmetic = .checked → ∀ c ∈ spec.columns, c < greatestWord

/-! ## Defects -/

/-- Levels that own columns, each its own, and name their navigations apart. -/
structure Site.AreSound (sites : List Site) : Prop where
  owning : ∀ site ∈ sites, site.columns ≠ []
  apart : sites.Pairwise fun a b => a.columns.Disjoint b.columns
  named : ∀ site ∈ sites, site.names.Nodup

/-- **The defect of a level** behind others: no column, a column of an earlier level, of which the
least is reported, or a navigation that is declared a second time. -/
inductive Site.Refused (earlier : List Site) (site : Site) : LayoutError → Prop
  | noColumns (hcolumns : site.columns = []) : Refused earlier site (.noColumns site.role.label)
  | sharedColumn {column : Nat} (hcolumn : column ∈ site.columns)
    (hshared : ∃ other ∈ earlier, column ∈ other.columns)
    (hleast : ∀ c ∈ site.columns, (∃ other ∈ earlier, c ∈ other.columns) → column ≤ c) :
    Refused earlier site (.sharedColumn column site.role.label)
  | repeatedNavigation {before after : List String} {name : String} (hcolumns : site.columns ≠ [])
    (happart : ∀ other ∈ earlier, other.columns.Disjoint site.columns)
    (hnames : site.names = before ++ name :: after) (hnodup : before.Nodup)
    (hname : name ∈ before) : Refused earlier site (.repeatedNavigation name site.role.label)

/-- **Sound descriptions**: the levels are sound, and every value of the continuation has a path. -/
structure LevelSpec.IsSound (spec : LevelSpec) : Prop where
  levels : Site.AreSound spec.outline
  continuation : ∀ column ∈ spec.continuation, column.path ≠ []

/-- **The first defect of a description**: that of the first level that has one, or else the first
value of the continuation without a path. -/
inductive LevelSpec.Refused (spec : LevelSpec) : LayoutError → Prop
  | level {before after : List Site} {site : Site} {e : LayoutError}
    (houtline : spec.outline = before ++ site :: after) (hbefore : Site.AreSound before)
    (hsite : site.Refused before e) : Refused spec e
  | continuation {before after : List ContinuationColumn} {column : ContinuationColumn}
    (hlevels : Site.AreSound spec.outline)
    (hcontinuation : spec.continuation = before ++ column :: after)
    (hbefore : ∀ other ∈ before, other.path ≠ []) (hpath : column.path = []) :
    Refused spec (.emptyContinuationPath column.property)

/-! ## Finding defects -/

/-- What is found first among columns in order is the least. -/
theorem find?_eq_some_of_pairwise {p : Nat → Bool} {columns : List Nat} {column : Nat}
    (h : columns.Pairwise (· < ·)) : columns.find? p = some column ↔
      column ∈ columns ∧ p column = true ∧ ∀ c ∈ columns, p c = true → column ≤ c := by
  induction columns with
  | nil => simp
  | cons first rest ih =>
    rw [List.pairwise_cons] at h
    rw [List.find?_cons]
    cases hfirst : p first with
    | true =>
      constructor
      · rintro ⟨⟩
        exact ⟨List.mem_cons_self, hfirst, List.forall_mem_cons.2
          ⟨fun _ => Nat.le_refl _, fun c hc _ => Nat.le_of_lt (h.1 c hc)⟩⟩
      · rintro ⟨hcolumn, -, hleast⟩
        have hle := hleast first List.mem_cons_self hfirst
        rcases List.mem_cons.1 hcolumn with rfl | hrest
        · rfl
        · exact absurd (h.1 column hrest) (Nat.not_lt.2 hle)
    | false =>
      rw [ih h.2]
      constructor
      · rintro ⟨hcolumn, hp, hleast⟩
        exact ⟨List.mem_cons_of_mem _ hcolumn, hp, List.forall_mem_cons.2
          ⟨fun hp => absurd (hp.symm.trans hfirst) nofun, hleast⟩⟩
      · rintro ⟨hcolumn, hp, hleast⟩
        rcases List.mem_cons.1 hcolumn with rfl | hrest
        · cases hp.symm.trans hfirst
        · exact ⟨hrest, hp, (List.forall_mem_cons.1 hleast).2⟩

theorem firstRepeated?_append (seen before rest : List String) :
    firstRepeated? seen (before ++ rest) =
      (firstRepeated? seen before).or (firstRepeated? (before.reverse ++ seen) rest) := by
  induction before generalizing seen with
  | nil => rfl
  | cons name others ih =>
    rw [List.cons_append, firstRepeated?, firstRepeated?, ih, List.reverse_cons,
      List.append_assoc, List.singleton_append]
    split <;> rfl

/-- The first name that occurs before is found. -/
theorem firstRepeated?_eq_some_iff {names : List String} {name : String} :
    firstRepeated? [] names = some name ↔
      ∃ before after, names = before ++ name :: after ∧ before.Nodup ∧ name ∈ before := by
  constructor
  · intro h
    induction names using List.reverseRecOn with
    | nil => cases h
    | append_singleton names last ih =>
      rw [firstRepeated?_append, Option.or_eq_some_iff] at h
      rcases h with h | ⟨hbefore, h⟩
      · obtain ⟨before, after, rfl, hbefore⟩ := ih h
        exact ⟨before, after ++ [last], by simp, hbefore⟩
      · rw [firstRepeated?] at h
        split at h
        · next hlast =>
          cases h
          exact ⟨names, [], rfl, firstRepeated?_nil_eq_none_iff.1 hbefore, by simpa using hlast⟩
        · cases h
  · rintro ⟨before, after, rfl, hnodup, hname⟩
    rw [firstRepeated?_append, firstRepeated?_nil_eq_none_iff.2 hnodup, Option.none_or,
      firstRepeated?, if_pos]
    simpa using hname

namespace Site

/-- Adds the columns of a level to those that are owned, unless the level is at fault. -/
def claim (owned : List Nat) (site : Site) : Except LayoutError (List Nat) := do
  checkLevel site.role.label (columnSet site.columns) owned site.names
  return owned ++ columnSet site.columns

variable {owned owned' : List Nat} {site : Site} {sites earlier : List Site} {e : LayoutError}

/-- **A site is claimed** if it has columns, all of them free, and names apart. -/
theorem claim_eq_ok_iff : site.claim owned = .ok owned' ↔
    site.columns ≠ [] ∧ (∀ c ∈ site.columns, c ∉ owned) ∧ site.names.Nodup ∧
      owned' = owned ++ columnSet site.columns := by
  have hcheck : checkLevel site.role.label (columnSet site.columns) owned site.names = .ok () ↔
      site.columns ≠ [] ∧ (∀ c ∈ site.columns, c ∉ owned) ∧ site.names.Nodup := by
    simp [checkLevel_eq_ok_iff]
  rw [claim, bind_eq_ok_iff]
  constructor
  · rintro ⟨⟨⟩, hok, ⟨⟩⟩
    obtain ⟨hcolumns, hfresh, hnames⟩ := hcheck.1 hok
    exact ⟨hcolumns, hfresh, hnames, rfl⟩
  · rintro ⟨hcolumns, hfresh, hnames, rfl⟩
    exact ⟨(), hcheck.2 ⟨hcolumns, hfresh, hnames⟩, rfl⟩

section

variable (howned : ∀ c, c ∈ owned ↔ ∃ other ∈ earlier, c ∈ other.columns)

include howned

/-- The least column that is owned already is found. -/
theorem find?_owned_eq_some_iff {column : Nat} :
    (columnSet site.columns).find? owned.contains = some column ↔
      column ∈ site.columns ∧ (∃ other ∈ earlier, column ∈ other.columns) ∧
        ∀ c ∈ site.columns, (∃ other ∈ earlier, c ∈ other.columns) → column ≤ c := by
  simp only [find?_eq_some_of_pairwise (pairwise_columnSet site.columns), mem_columnSet,
    List.contains_iff_mem, howned]

theorem find?_owned_eq_none_iff : (columnSet site.columns).find? owned.contains = none ↔
    ∀ other ∈ earlier, other.columns.Disjoint site.columns := by
  simp only [List.find?_eq_none, mem_columnSet, List.contains_iff_mem, howned]
  constructor
  · exact fun h other hother c hc hc' => h c hc' ⟨other, hother, hc⟩
  · rintro h c hc ⟨other, hother, hc'⟩
    exact h other hother hc' hc

/-- What a claim fails with is what is wrong with the site. -/
theorem refused_of_claim (h : site.claim owned = .error e) : site.Refused earlier e := by
  rw [claim, checkLevel] at h
  split at h
  · next hempty =>
    cases h
    exact .noColumns (by simpa using hempty)
  · next hcolumns =>
    split at h
    · next hfind =>
      cases h
      obtain ⟨hcolumn, hshared, hleast⟩ := (find?_owned_eq_some_iff howned).1 hfind
      exact .sharedColumn hcolumn hshared hleast
    · next hfind =>
      split at h
      · next hrepeated =>
        cases h
        obtain ⟨before, after, hnames, hnodup, hname⟩ := firstRepeated?_eq_some_iff.1 hrepeated
        exact .repeatedNavigation (by simpa using hcolumns)
          ((find?_owned_eq_none_iff howned).1 hfind) hnames hnodup hname
      · cases h

/-- What is wrong with a site is what its claim fails with. -/
theorem claim_of_refused (h : site.Refused earlier e) : site.claim owned = .error e := by
  have hempty (hcolumns : site.columns ≠ []) : (columnSet site.columns).isEmpty = false :=
    List.isEmpty_eq_false_iff.2 (mt columnSet_eq_nil.1 hcolumns)
  cases h with
  | noColumns hcolumns => simp [claim, checkLevel, hcolumns]
  | sharedColumn hcolumn hshared hleast =>
    have hfind := (find?_owned_eq_some_iff howned).2 ⟨hcolumn, hshared, hleast⟩
    rw [claim, checkLevel, hempty (List.ne_nil_of_mem hcolumn), hfind]
    rfl
  | repeatedNavigation hcolumns happart hnames hnodup hname =>
    have hfind := (find?_owned_eq_none_iff howned).2 happart
    have hrepeated := firstRepeated?_eq_some_iff.2 ⟨_, _, hnames, hnodup, hname⟩
    rw [claim, checkLevel, hempty hcolumns, hfind, hrepeated]
    rfl

/-- A level is refused for its defect, if just the columns of earlier levels are owned. -/
theorem claim_eq_error_iff : site.claim owned = .error e ↔ site.Refused earlier e :=
  ⟨refused_of_claim howned, claim_of_refused howned⟩

end

theorem areSound_nil : AreSound [] :=
  ⟨List.forall_mem_nil _, List.Pairwise.nil, List.forall_mem_nil _⟩

/-- Sites are sound together if each is, and no two share a column. -/
theorem areSound_cons : AreSound (site :: sites) ↔
    (site.columns ≠ [] ∧ site.names.Nodup) ∧ AreSound sites ∧
      ∀ other ∈ sites, site.columns.Disjoint other.columns := by
  constructor
  · rintro ⟨howning, hapart, hnamed⟩
    rw [List.forall_mem_cons] at howning hnamed
    rw [List.pairwise_cons] at hapart
    exact ⟨⟨howning.1, hnamed.1⟩, ⟨howning.2, hapart.2, hnamed.2⟩, hapart.1⟩
  · rintro ⟨⟨hcolumns, hnames⟩, ⟨howning, hapart, hnamed⟩, hdisjoint⟩
    exact ⟨List.forall_mem_cons.2 ⟨hcolumns, howning⟩, List.pairwise_cons.2 ⟨hdisjoint, hapart⟩,
      List.forall_mem_cons.2 ⟨hnames, hnamed⟩⟩

/-- **Levels claim their columns** one after the other if they are sound and no column is owned by
others. -/
theorem foldlM_claim_eq_ok_iff : sites.foldlM claim owned = .ok owned' ↔
    AreSound sites ∧ (∀ site ∈ sites, ∀ c ∈ site.columns, c ∉ owned) ∧
      owned' = owned ++ sites.flatMap fun site => columnSet site.columns := by
  induction sites generalizing owned with
  | nil => simp [areSound_nil, eq_comm]
  | cons site rest ih =>
    rw [List.foldlM_cons, bind_eq_ok_iff, areSound_cons, List.forall_mem_cons, List.flatMap_cons,
      ← List.append_assoc]
    have hmem (c : Nat) : c ∉ owned ++ columnSet site.columns ↔ c ∉ owned ∧ c ∉ site.columns := by
      simp
    simp only [claim_eq_ok_iff, ih]
    constructor
    · rintro ⟨_, ⟨hcolumns, hfresh, hnames, rfl⟩, hrest, hapart, howned'⟩
      simp only [hmem] at hapart
      exact ⟨⟨⟨hcolumns, hnames⟩, hrest,
          fun other hother c hc hc' => (hapart other hother c hc').2 hc⟩,
        ⟨hfresh, fun other hother c hc => (hapart other hother c hc).1⟩, howned'⟩
    · rintro ⟨⟨⟨hcolumns, hnames⟩, hrest, hdisjoint⟩, ⟨hfresh, hapart⟩, howned'⟩
      refine ⟨_, ⟨hcolumns, hfresh, hnames, rfl⟩, hrest, fun other hother c hc => ?_, howned'⟩
      exact (hmem c).2 ⟨hapart other hother c hc, fun hc' => hdisjoint other hother hc' hc⟩

/-- Levels claim their columns just when they are sound. -/
theorem exists_foldlM_claim_iff :
    (∃ owned, sites.foldlM claim [] = .ok owned) ↔ AreSound sites := by
  simp only [foldlM_claim_eq_ok_iff]
  exact ⟨fun ⟨_, hsound, _⟩ => hsound,
    fun hsound => ⟨_, hsound, fun _ _ _ _ => List.not_mem_nil, rfl⟩⟩

/-- **Levels are refused** for the defect of the first of them that has one. -/
theorem foldlM_claim_eq_error_iff : sites.foldlM claim [] = .error e ↔
    ∃ before site after, sites = before ++ site :: after ∧ AreSound before ∧
      site.Refused before e := by
  have hclaim {before : List Site} {owned : List Nat} (hbefore : before.foldlM claim [] = .ok owned)
      {site : Site} : site.claim owned = .error e ↔ site.Refused before e := by
    obtain ⟨-, -, rfl⟩ := foldlM_claim_eq_ok_iff.1 hbefore
    refine claim_eq_error_iff fun c => ?_
    rw [List.nil_append, List.mem_flatMap]
    simp only [mem_columnSet]
  rw [foldlM_eq_error_iff]
  constructor
  · rintro ⟨before, site, after, owned, hsites, hbefore, hsite⟩
    exact ⟨before, site, after, hsites, (foldlM_claim_eq_ok_iff.1 hbefore).1,
      (hclaim hbefore).1 hsite⟩
  · rintro ⟨before, site, after, hsites, hbefore, hsite⟩
    have hok := foldlM_claim_eq_ok_iff.2 ⟨hbefore, fun _ _ _ _ => List.not_mem_nil, rfl⟩
    exact ⟨before, site, after, _, hsites, hok, (hclaim hok).2 hsite⟩

end Site

/-! ## Placing along the outline -/

/-- The step of the induction from the navigations to their level. -/
theorem placeNavigations_owned {parent depth : Nat} (path : List String)
    {navigations : List (String × Cardinality × LevelSpec)}
    (ih : ∀ navigation ∈ navigations, ∀ path role parent depth placed,
      (fun result => result.2.owned) <$> navigation.2.2.place role parent depth placed =
        (navigation.2.2.sites path role).foldlM Site.claim placed.owned) (placed : Placed) :
    (fun result => result.2.owned) <$> placeNavigations parent depth navigations placed =
      (sitesBelow path navigations).foldlM Site.claim placed.owned := by
  induction navigations generalizing placed with
  | nil => rfl
  | cons navigation rest ihrest =>
    obtain ⟨name, cardinality, target⟩ := navigation
    rw [List.forall_mem_cons] at ih
    rw [placeNavigations, sitesBelow, List.foldlM_append, ← ih.1 _ _ (some parent) depth placed]
    simp only [map_bind, bind_map_left, ← ihrest ih.2, map_pure]
    rfl

/-- **Placing claims columns** as the levels of the outline do, one after the other. -/
theorem LevelSpec.place_owned (spec : LevelSpec) : ∀ path role parent depth placed,
    (fun result => result.2.owned) <$> spec.place role parent depth placed =
      (spec.sites path role).foldlM Site.claim placed.owned := by
  induction spec with
  | mk properties keyColumns navigations continuation ih =>
    intro path role parent depth placed
    have hnames : (navigations.map fun navigation => (navigation.1, navigation.2.1)).map Prod.fst =
        navigations.map Prod.fst := by
      rw [List.map_map]
      rfl
    rw [place, sites, List.foldlM_cons, Site.claim, Site.names, hnames]
    simp only [map_bind, bind_assoc, pure_bind, map_pure, Site.columns]
    exact bind_congr fun _ => (bind_pure_comp _ _).trans (placeNavigations_owned path ih _)

namespace LevelSpec

variable {arithmetic : Arithmetic} {spec : LevelSpec} {e : LayoutError} {root : Level}
  {placed : Placed}

/-- The levels that have been placed own the columns of the outline. -/
theorem mem_columns_place (hplace : spec.place .root none 0 ⟨0, []⟩ = .ok (root, placed))
    (c : Nat) : c ∈ (root.preorder.flatMap fun level => level.info.columns) ↔
      c ∈ spec.outline.flatMap Site.columns := by
  have hclaim : spec.outline.foldlM Site.claim [] = .ok placed.owned := by
    rw [outline, ← place_owned spec [] .root none 0 ⟨0, []⟩, hplace]
    rfl
  obtain ⟨-, -, howned⟩ := Site.foldlM_claim_eq_ok_iff.1 hclaim
  obtain ⟨hwf, -, hmem⟩ := spec.wellFormed_of_place _ _ _ _ _ _ hplace
  have hroot := hmem c
  simp only [howned, List.nil_append, List.not_mem_nil, false_or, hwf.mem_subtree_iff] at hroot
  rw [List.mem_flatMap, ← hroot]
  simp only [List.mem_flatMap, mem_columnSet]

/-- **A layout fails** where the levels of the outline do, or else for its continuation, or else for
a column that has no successor. -/
theorem faultOf_layout (arithmetic : Arithmetic) (spec : LevelSpec) :
    faultOf (spec.layoutWith arithmetic) =
      (faultOf (spec.outline.foldlM Site.claim [])).or
        (((spec.continuation.find? fun column => column.path.isEmpty).map fun column =>
          .emptyContinuationPath column.property).or
            (faultOf (arithmetic.widthOf spec.columns))) := by
  have hplace : faultOf (spec.place .root none 0 ⟨0, []⟩) =
      faultOf (spec.outline.foldlM Site.claim []) := by
    rw [outline, ← place_owned spec [] .root none 0 ⟨0, []⟩]
    cases spec.place .root none 0 ⟨0, []⟩ <;> rfl
  rw [← hplace, layoutWith]
  refine faultOf_bind fun result hroot => ?_
  obtain ⟨root, placed⟩ := result
  cases spec.continuation.find? fun column => column.path.isEmpty with
  | some column => rfl
  | none =>
    have hcolumns : faultOf (arithmetic.widthOf spec.columns) = faultOf (arithmetic.widthOf
        ((root.preorder.flatMap fun level => level.info.columns) ++
          spec.continuation.map ContinuationColumn.column)) :=
      Arithmetic.faultOf_widthOf_congr fun c => by
        rw [columns, List.mem_append, List.mem_append, mem_columns_place hroot]
    rw [Option.map_none, Option.none_or, hcolumns]
    dsimp only
    cases arithmetic.widthOf (_ ++ _) <;> rfl

/-- **A description has a layout** just when it is sound and fits the arithmetic. -/
theorem exists_layout_iff : (∃ layout, spec.layoutWith arithmetic = .ok layout) ↔
    spec.IsSound ∧ spec.Fits arithmetic := by
  rw [← faultOf_eq_none_iff, faultOf_layout, Option.or_eq_none_iff, Option.or_eq_none_iff,
    faultOf_eq_none_iff, faultOf_eq_none_iff, Site.exists_foldlM_claim_iff,
    Option.map_eq_none_iff, List.find?_eq_none, Arithmetic.exists_widthOf_iff]
  simp only [List.isEmpty_iff]
  exact ⟨fun ⟨hlevels, hcontinuation, hfits⟩ => ⟨⟨hlevels, hcontinuation⟩, hfits⟩,
    fun ⟨hsound, hfits⟩ => ⟨hsound.levels, hsound.continuation, hfits⟩⟩

/-- **A description is refused** for the first of its defects, and a sound one only where a column
has no successor. -/
theorem layout_eq_error_iff : spec.layoutWith arithmetic = .error e ↔
    spec.Refused e ∨ spec.IsSound ∧ ¬ spec.Fits arithmetic ∧ e = .widthOverflow := by
  have hwidth : arithmetic.widthOf spec.columns = .error e ↔
      ¬ spec.Fits arithmetic ∧ e = .widthOverflow := by
    simp [Arithmetic.widthOf_eq_error_iff, Fits, and_assoc]
  rw [← faultOf_eq_some_iff, faultOf_layout, Option.or_eq_some_iff, Option.or_eq_some_iff,
    faultOf_eq_some_iff, faultOf_eq_some_iff, faultOf_eq_none_iff, Site.exists_foldlM_claim_iff,
    Site.foldlM_claim_eq_error_iff, Option.map_eq_some_iff, Option.map_eq_none_iff, hwidth]
  simp only [List.find?_eq_some_iff_append, List.find?_eq_none, List.isEmpty_iff]
  constructor
  · rintro (⟨before, site, after, houtline, hbefore, hsite⟩ | ⟨hlevels,
      ⟨column, ⟨hpath, before, after, hcontinuation, hbefore⟩, rfl⟩ | ⟨hcontinuation, hfits⟩⟩)
    · exact .inl (.level houtline hbefore hsite)
    · exact .inl (.continuation hlevels hcontinuation (by simpa using hbefore) hpath)
    · exact .inr ⟨⟨hlevels, hcontinuation⟩, hfits⟩
  · rintro (hrefused | ⟨hsound, hfits⟩)
    · cases hrefused with
      | level houtline hbefore hsite => exact .inl ⟨_, _, _, houtline, hbefore, hsite⟩
      | continuation hlevels hcontinuation hbefore hpath =>
        exact .inr ⟨hlevels, .inl ⟨_, ⟨hpath, _, _, hcontinuation, by simpa using hbefore⟩, rfl⟩⟩
    · exact .inr ⟨hsound.levels, .inr ⟨hsound.continuation, hfits⟩⟩

end LevelSpec

end QueryPlans
