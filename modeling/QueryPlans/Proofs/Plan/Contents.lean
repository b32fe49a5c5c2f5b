import Mathlib.Data.List.Nodup
import QueryPlans.Proofs.Plan.Cache
import QueryPlans.Proofs.Shape.Equality

/-!
# Proofs/Plan/Contents — what a cache holds for a shape

As long as all shapes come from requests, a cache never holds two values for one shape
(`PlanCache.IsKeyed`), so finding the value of a shape does not depend on the order of the entries
and only an insertion or an eviction changes it.  An enabled cache without a bound holds the first
value that was ever put into it for a shape (`PlanCache.IsFilled`): later insertions find it and
hand it out, and its counters tell how much it holds.
-/

namespace QueryPlans

namespace PlanCache

variable {α : Type} {hash : ByteHash} {c c' : PlanCache α} {shape : Shape} {kept : Shape × α}
  {value : α}

/-! ## Calls that change no setting -/

@[simp] theorem settings_get (c : PlanCache α) (shape : Shape) :
    (c.get shape).2.settings = c.settings := by
  have hgets := c.gets shape
  generalize c.get shape = outcome at hgets ⊢
  cases hgets <;> rfl

@[simp] theorem settings_insert (c : PlanCache α) (shape : Shape) (value : α) :
    (c.insert shape value).2.settings = c.settings := by
  have hinserts := c.inserts shape value
  generalize c.insert shape value = outcome at hinserts ⊢
  cases hinserts <;> rfl

/-- A look-up gives what is kept, if the cache serves the shape. -/
theorem fst_get (c : PlanCache α) (shape : Shape) :
    (c.get shape).1 = if c.serves shape then (c.find? shape).map Prod.snd else none := by
  rw [get]
  split
  · cases c.find? shape <;> rfl
  · rfl

/-- An insertion gives what was kept first, else the new value. -/
theorem fst_insert (c : PlanCache α) (shape : Shape) (value : α) :
    (c.insert shape value).1 =
      if c.serves shape then ((c.find? shape).map Prod.snd).getD value else value := by
  rw [insert]
  split
  · cases c.find? shape <;> rfl
  · rfl

/-- **What a look-up leaves behind**: the entries in another order at most, and one more hit or,
where the shape is served, one more miss. -/
theorem of_get {found : Option α} (hget : c.get shape = (found, c')) :
    c'.entries.Perm c.entries ∧
      c'.stats.hits = c.stats.hits + (if found.isSome then 1 else 0) ∧
      c'.stats.misses = c.stats.misses + (if c.serves shape && found.isNone then 1 else 0) ∧
      c'.stats.racesLost = c.stats.racesLost := by
  have hgets := c.gets shape
  rw [hget] at hgets
  cases hgets with
  | passed hserves => exact ⟨List.Perm.refl _, rfl, by simp [hserves], rfl⟩
  | hit _ hentries _ => exact ⟨hentries ▸ List.perm_middle.symm, rfl, by simp, rfl⟩
  | missed hserves _ => exact ⟨List.Perm.refl _, rfl, by simp [hserves], rfl⟩

/-- An insertion hands out what a look-up would have found, if anything; then it lost a race. -/
theorem fst_insert_eq (c : PlanCache α) (shape : Shape) (value : α) :
    (c.insert shape value).1 = (c.get shape).1.getD value := by
  rw [fst_insert, fst_get]
  split <;> rfl

/-- A look-up that finds nothing is counted, if the shape is served. -/
theorem get_of_none (h : (c.get shape).1 = none) :
    (c.get shape).2 =
      if c.serves shape then c.count fun s => { s with misses := s.misses + 1 } else c := by
  have hgets := c.gets shape
  generalize c.get shape = outcome at h hgets ⊢
  cases hgets with
  | passed hserves => simp [hserves]
  | hit _ _ _ => cases h
  | missed hserves _ => simp [hserves, count]

/-! ## One value for each shape -/

/-- **A cache of the shapes of requests**: no two of its values are kept for one shape. -/
structure IsKeyed (hash : ByteHash) (c : PlanCache α) : Prop where
  normal : ∀ kept ∈ c.entries, kept.1.IsNormal hash
  cacheable : ∀ kept ∈ c.entries, kept.1.isCacheable = true
  nodup : (c.entries.map Prod.fst).Nodup

namespace IsKeyed

/-- An empty cache is keyed. -/
theorem ofSettings (settings : CacheSettings) :
    (PlanCache.ofSettings settings : PlanCache α).IsKeyed hash :=
  ⟨by simp [PlanCache.ofSettings], by simp [PlanCache.ofSettings], List.nodup_nil⟩

theorem of_sublist (h : c.IsKeyed hash) (hentries : c'.entries.Sublist c.entries) :
    c'.IsKeyed hash :=
  ⟨fun kept hkept => h.normal kept (hentries.subset hkept),
    fun kept hkept => h.cacheable kept (hentries.subset hkept), h.nodup.sublist (hentries.map _)⟩

theorem of_perm (h : c.IsKeyed hash) (hentries : c'.entries.Perm c.entries) : c'.IsKeyed hash :=
  ⟨fun kept hkept => h.normal kept (hentries.subset hkept),
    fun kept hkept => h.cacheable kept (hentries.subset hkept),
    (hentries.map _).nodup_iff.2 h.nodup⟩

/-- What is kept for a shape is found under it, and nothing else is. -/
theorem find?_eq_some_iff (h : c.IsKeyed hash) (hshape : shape.IsNormal hash) :
    c.find? shape = some kept ↔ kept ∈ c.entries ∧ kept.1 = shape := by
  constructor
  · intro hfind
    obtain ⟨hmem, hagrees⟩ := mem_of_find? hfind
    exact ⟨hmem, (((h.normal kept hmem).agrees_iff hshape).1 hagrees).2⟩
  · rintro ⟨hmem, rfl⟩
    have hself := hshape.agrees_self (h.cacheable kept hmem)
    have hfound : (c.find? kept.1).isSome := List.find?_isSome.2 ⟨kept, hmem, hself⟩
    obtain ⟨other, hother⟩ := Option.isSome_iff_exists.1 hfound
    obtain ⟨hother_mem, hagrees⟩ := mem_of_find? hother
    have hkey := (((h.normal other hother_mem).agrees_iff hshape).1 hagrees).2
    rw [hother, List.inj_on_of_nodup_map h.nodup hother_mem hmem hkey]

/-- A shape is not found exactly if it is not kept. -/
theorem find?_eq_none_iff (h : c.IsKeyed hash) (hshape : shape.IsNormal hash) :
    c.find? shape = none ↔ shape ∉ c.entries.map Prod.fst := by
  rw [Option.eq_none_iff_forall_ne_some, List.mem_map, not_exists]
  exact forall_congr' fun kept => not_congr (h.find?_eq_some_iff hshape)

/-- Finding does not depend on the order. -/
theorem find?_congr (h : c.IsKeyed hash) (h' : c'.IsKeyed hash)
    (hmem : ∀ kept, kept ∈ c'.entries ↔ kept ∈ c.entries) (hshape : shape.IsNormal hash) :
    c'.find? shape = c.find? shape := by
  refine Option.ext fun kept => ?_
  rw [h.find?_eq_some_iff hshape, h'.find?_eq_some_iff hshape, hmem]

/-- No two of the values are kept for shapes that agree. -/
theorem pairwise (h : c.IsKeyed hash) :
    c.entries.Pairwise fun a b => a.1.agrees b.1 = false := by
  refine (List.pairwise_map.1 h.nodup).imp_of_mem fun ha hb hne => ?_
  rw [Bool.eq_false_iff]
  exact fun hagrees => hne (((h.normal _ ha).agrees_iff (h.normal _ hb)).1 hagrees).2

/-- A shape that was not kept may be put in front. -/
theorem putInFront (h : c.IsKeyed hash) (hshape : shape.IsNormal hash)
    (hserves : c.serves shape = true) (habsent : c.find? shape = none) (value : α) :
    (c.putInFront shape value).IsKeyed hash where
  normal := List.forall_mem_cons.2 ⟨hshape, h.normal⟩
  cacheable := List.forall_mem_cons.2 ⟨((Bool.and_eq_true _ _).mp hserves).2, h.cacheable⟩
  nodup := List.nodup_cons.2 ⟨(h.find?_eq_none_iff hshape).1 habsent, h.nodup⟩

/-- A look-up takes no shape in or out. -/
theorem get (h : c.IsKeyed hash) (shape : Shape) : (c.get shape).2.IsKeyed hash := by
  have hgets := c.gets shape
  generalize c.get shape = outcome at hgets ⊢
  cases hgets with
  | passed _ => exact h
  | hit _ hentries _ => exact h.of_perm (hentries ▸ List.perm_middle.symm)
  | missed _ _ => exact h.of_sublist (List.Sublist.refl _)

/-- **An insertion keeps shapes apart**, since one that is kept already is not inserted again. -/
theorem insert (h : c.IsKeyed hash) (hshape : shape.IsNormal hash) (value : α) :
    (c.insert shape value).2.IsKeyed hash := by
  have hinserts := c.inserts shape value
  generalize c.insert shape value = outcome at hinserts ⊢
  cases hinserts with
  | passed _ => exact h
  | lost _ hentries _ => exact h.of_perm (hentries ▸ List.perm_middle.symm)
  | published hserves habsent _ =>
    exact (h.putInFront hshape hserves habsent value).of_sublist (List.Sublist.refl _)
  | evicted hserves habsent _ _ hentries _ _ =>
    refine (h.putInFront hshape hserves habsent value).of_sublist (List.Sublist.cons_cons _ ?_)
    rw [hentries]
    exact List.Sublist.append_left (List.sublist_cons_self _ _) _

theorem clear (h : c.IsKeyed hash) : c.clear.IsKeyed hash := h.of_sublist (List.nil_sublist _)

/-- Looking up changes nothing that can be found. -/
theorem find?_get (h : c.IsKeyed hash) (shape : Shape) {shape' : Shape}
    (hshape' : shape'.IsNormal hash) : (c.get shape).2.find? shape' = c.find? shape' := by
  refine h.find?_congr (h.get shape) (fun kept => ?_) hshape'
  have hgets := c.gets shape
  generalize c.get shape = outcome at hgets ⊢
  cases hgets with
  | passed _ => exact Iff.rfl
  | hit _ hentries _ => rw [hentries]; exact List.perm_middle.symm.mem_iff
  | missed _ _ => exact Iff.rfl

/-- Without a bound an insertion adds its value where there was none, and changes nothing else. -/
theorem find?_insert (h : c.IsKeyed hash) (hunbounded : c.settings.capacity = none)
    (hserves : c.serves shape = true) (hshape : shape.IsNormal hash) (value : α) {shape' : Shape}
    (hshape' : shape'.IsNormal hash) :
    (c.insert shape value).2.find? shape' =
      (c.find? shape').or ([(shape, value)].find? fun kept => kept.1.agrees shape') := by
  have hinserted := h.insert hshape value
  have hinserts := c.inserts shape value
  generalize c.insert shape value = outcome at hinserted hinserts ⊢
  cases hinserts with
  | passed hpassed => simp [hpassed] at hserves
  | @lost before after kept _ hentries hagrees =>
    have hkept : kept ∈ c.entries := by simp [hentries]
    have hsame := h.find?_congr hinserted
      (fun kept => by rw [hentries]; exact List.perm_middle.symm.mem_iff) hshape'
    rw [hsame]
    cases hfind : c.find? shape' with
    | some found => rfl
    | none =>
      -- What was there for the inserted shape would be found, so the shapes differ.
      have hne : ¬shape.agrees shape' = true := by
        intro hagrees'
        have hkey := ((h.normal kept hkept).agrees_iff hshape).1 hagrees
        have hkey' := (hshape.agrees_iff hshape').1 hagrees'
        have hfound := (h.find?_eq_some_iff hshape').2 ⟨hkept, hkey.2.trans hkey'.2⟩
        cases hfind.symm.trans hfound
      simp [hne]
  | published _ habsent _ =>
    change ((shape, value) :: c.entries).find? _ = _
    rw [List.find?_cons, List.find?_cons]
    split
    · next hagrees =>
      have hkey := ((hshape.agrees_iff hshape').1 hagrees).2
      subst hkey
      rw [habsent, Option.none_or]
    · rw [List.find?_nil, Option.or_none]
      rfl
  | evicted _ _ hcapacity _ _ _ _ =>
    rw [CacheSettings.shardCapacity?, hunbounded] at hcapacity
    cases hcapacity

end IsKeyed

/-! ## Counters -/

/-- How often the cache had an entry to hand out, be it one that it found or one that it took in. -/
def handedOut (c : PlanCache α) : Nat := c.stats.hits + c.stats.inserts + c.stats.racesLost

/-- A look-up that finds an entry hands it out. -/
theorem handedOut_get (c : PlanCache α) (shape : Shape) :
    (c.get shape).2.handedOut = c.handedOut + if (c.get shape).1.isSome then 1 else 0 := by
  have hgets := c.gets shape
  generalize c.get shape = outcome at hgets ⊢
  cases hgets with
  | passed _ => rfl
  | hit _ _ _ =>
    simp only [handedOut, Option.isSome_some, if_true]
    omega
  | missed _ _ => rfl

/-- An insertion hands an entry out, its own or the one that came first. -/
theorem handedOut_insert (hserves : c.serves shape = true) (value : α) :
    (c.insert shape value).2.handedOut = c.handedOut + 1 := by
  have hinserts := c.inserts shape value
  generalize c.insert shape value = outcome at hinserts ⊢
  cases hinserts with
  | passed hpassed => cases hserves.symm.trans hpassed
  | lost _ _ _ => rfl
  | published _ _ _ | evicted _ _ _ _ _ _ _ =>
    simp only [handedOut]
    omega

/-- A race is lost where the shape is found after all. -/
theorem racesLost_insert (c : PlanCache α) (shape : Shape) (value : α) :
    (c.insert shape value).2.stats.racesLost =
      c.stats.racesLost + if (c.get shape).1.isSome then 1 else 0 := by
  rw [fst_get]
  have hinserts := c.inserts shape value
  generalize c.insert shape value = outcome at hinserts ⊢
  cases hinserts with
  | passed hserves => simp [hserves]
  | @lost before after kept hserves hentries hagrees =>
    have hfound : (c.find? shape).isSome :=
      List.find?_isSome.2 ⟨kept, by simp [hentries], hagrees⟩
    simp [hserves, hfound]
  | published hserves habsent _ => simp [hserves, habsent]
  | evicted hserves habsent _ _ _ _ _ => simp [hserves, habsent]

/-- **What was taken in is still there or was evicted.** -/
def IsBalanced (c : PlanCache α) : Prop := c.stats.inserts = c.size + c.stats.evictions

/-- What a look-up counts it hands out. -/
theorem IsBalanced.get (h : c.IsBalanced) (shape : Shape) : (c.get shape).2.IsBalanced := by
  have hgets := c.gets shape
  generalize c.get shape = outcome at hgets ⊢
  cases hgets with
  | passed _ => exact h
  | hit _ hentries _ =>
    simp only [IsBalanced, size, hentries] at h ⊢
    rw [h, List.perm_middle.length_eq]
  | missed _ _ => exact h

/-- So does an insertion. -/
theorem IsBalanced.insert (h : c.IsBalanced) (shape : Shape) (value : α) :
    (c.insert shape value).2.IsBalanced := by
  have hinserts := c.inserts shape value
  generalize c.insert shape value = outcome at hinserts ⊢
  cases hinserts with
  | passed _ => exact h
  | lost _ hentries _ =>
    simp only [IsBalanced, size, hentries] at h ⊢
    rw [h, List.perm_middle.length_eq]
  | published _ _ _ =>
    simp only [IsBalanced, size, List.length_cons] at h ⊢
    omega
  | evicted _ _ _ _ hentries _ _ =>
    simp only [IsBalanced, size, hentries, List.length_append, List.length_cons] at h ⊢
    omega

/-! ## Without a bound -/

/-- **A cache that holds the first value of each shape**, of all that were put into it. -/
def HoldsFirst (hash : ByteHash) (inserted : List (Shape × α)) (c : PlanCache α) : Prop :=
  ∀ ⦃shape⦄, shape.IsNormal hash → c.find? shape = inserted.find? fun kept => kept.1.agrees shape

/-- **An enabled cache without a bound**, after some values were put into it. -/
structure IsFilled (hash : ByteHash) (inserted : List (Shape × α)) (c : PlanCache α) : Prop where
  enabled : c.settings.enabled = true
  unbounded : c.settings.capacity = none
  normal : ∀ kept ∈ inserted, kept.1.IsNormal hash ∧ kept.1.isCacheable = true
  keyed : c.IsKeyed hash
  first : c.HoldsFirst hash inserted
  balanced : c.IsBalanced
  evictions : c.stats.evictions = 0

namespace IsFilled

variable {inserted : List (Shape × α)}

/-- An empty cache is filled with nothing. -/
theorem ofSettings {settings : CacheSettings} (henabled : settings.enabled = true)
    (hunbounded : settings.capacity = none) :
    (PlanCache.ofSettings settings : PlanCache α).IsFilled hash [] where
  enabled := henabled
  unbounded := hunbounded
  normal _ hkept := nomatch hkept
  keyed := .ofSettings settings
  first _ _ := rfl
  balanced := rfl
  evictions := rfl

/-- A cache without bounds serves every shape whose plans may be kept. -/
theorem serves_eq (h : c.IsFilled hash inserted) (shape : Shape) :
    c.serves shape = shape.isCacheable := by
  rw [serves, isEnabled, h.enabled, Bool.true_and]

/-- Nothing was evicted, so what was inserted is there. -/
theorem inserts_eq (h : c.IsFilled hash inserted) : c.stats.inserts = c.size := by
  rw [h.balanced, h.evictions, Nat.add_zero]

/-- A look-up inserts nothing. -/
theorem get (h : c.IsFilled hash inserted) (shape : Shape) :
    (c.get shape).2.IsFilled hash inserted where
  enabled := by rw [settings_get, h.enabled]
  unbounded := by rw [settings_get, h.unbounded]
  normal := h.normal
  keyed := h.keyed.get shape
  first _ hshape' := (h.keyed.find?_get shape hshape').trans (h.first hshape')
  balanced := h.balanced.get shape
  evictions := by
    have hgets := c.gets shape
    generalize c.get shape = outcome at hgets ⊢
    cases hgets <;> exact h.evictions

theorem of_get (h : c.IsFilled hash inserted) {found : Option α}
    (hget : c.get shape = (found, c')) : c'.IsFilled hash inserted := by
  simpa only [hget] using h.get shape

/-- **An insertion** is one more value that was inserted, whether it is kept or has lost its race.
-/
theorem insert (h : c.IsFilled hash inserted) (hshape : shape.IsNormal hash)
    (hcacheable : shape.isCacheable = true) (value : α) :
    (c.insert shape value).2.IsFilled hash (inserted ++ [(shape, value)]) where
  enabled := by rw [settings_insert, h.enabled]
  unbounded := by rw [settings_insert, h.unbounded]
  normal := List.forall_mem_append.2 ⟨h.normal, List.forall_mem_singleton.2 ⟨hshape, hcacheable⟩⟩
  keyed := h.keyed.insert hshape value
  first shape' hshape' := by
    have hserves := (h.serves_eq shape).trans hcacheable
    rw [h.keyed.find?_insert h.unbounded hserves hshape value hshape', h.first hshape',
      List.find?_append]
  balanced := h.balanced.insert shape value
  evictions := by
    have hinserts := c.inserts shape value
    generalize c.insert shape value = outcome at hinserts ⊢
    cases hinserts with
    | evicted _ _ hcapacity _ _ _ _ =>
      rw [CacheSettings.shardCapacity?, h.unbounded] at hcapacity
      cases hcapacity
    | _ => exact h.evictions

/-- **A look-up hands out the first value of its shape.** -/
theorem fst_get (h : c.IsFilled hash inserted) (hshape : shape.IsNormal hash)
    (hcacheable : shape.isCacheable = true) :
    (c.get shape).1 = (inserted.find? fun kept => kept.1.agrees shape).map Prod.snd := by
  rw [PlanCache.fst_get, if_pos ((h.serves_eq shape).trans hcacheable), h.first hshape]

/-- What is found was put in first for a shape that agrees. -/
theorem exists_of_get (h : c.IsFilled hash inserted) (hshape : shape.IsNormal hash)
    (hget : (c.get shape).1 = some value) :
    shape.isCacheable = true ∧ (shape, value) ∈ inserted := by
  have hcacheable : shape.isCacheable = true := by
    by_contra hnot
    rw [PlanCache.fst_get, if_neg (by rwa [h.serves_eq])] at hget
    cases hget
  rw [h.fst_get hshape hcacheable] at hget
  obtain ⟨kept, hfind, rfl⟩ := Option.map_eq_some_iff.1 hget
  have hkept := List.mem_of_find?_eq_some hfind
  have hagrees : kept.1.agrees shape = true := by simpa only using List.find?_some hfind
  obtain rfl := (((h.normal kept hkept).1.agrees_iff hshape).1 hagrees).2
  exact ⟨hcacheable, hkept⟩

/-- **A look-up finds something** when a value was put in for a shape that agrees. -/
theorem isSome_get_iff (h : c.IsFilled hash inserted) (hshape : shape.IsNormal hash) :
    (c.get shape).1.isSome = true ↔ ∃ kept ∈ inserted, kept.1.agrees shape = true := by
  constructor
  · intro hsome
    obtain ⟨value, hget⟩ := Option.isSome_iff_exists.1 hsome
    obtain ⟨hcacheable, hmem⟩ := h.exists_of_get hshape hget
    exact ⟨_, hmem, hshape.agrees_self hcacheable⟩
  · rintro ⟨kept, hkept, hagrees⟩
    have hcacheable : shape.isCacheable = true := by
      simp only [Shape.agrees, Bool.and_eq_true] at hagrees
      exact hagrees.1.1.2
    rw [h.fst_get hshape hcacheable, Option.isSome_map]
    exact List.find?_isSome.2 ⟨kept, hkept, hagrees⟩

/-- After a look-up that found nothing, a value is put in front, if the shape may be kept. -/
theorem insert_of_get (h : c.IsFilled hash inserted) (hshape : shape.IsNormal hash)
    (hget : c.get shape = (none, c')) (value : α) :
    c'.insert shape value =
      (value,
        if shape.isCacheable then
          { c' with
            entries := (shape, value) :: c'.entries
            stats := { c'.stats with inserts := c'.stats.inserts + 1 } }
        else c') := by
  have h' := h.of_get hget
  rw [PlanCache.insert, h'.serves_eq]
  cases hcacheable : shape.isCacheable with
  | false => rfl
  | true =>
    have habsent : c'.find? shape = none := by
      rw [h'.first hshape, ← Option.map_eq_none_iff, ← h.fst_get hshape hcacheable, hget]
    have hcapacity : c'.settings.shardCapacity? = none := by
      rw [CacheSettings.shardCapacity?, h'.unbounded, Option.map_none]
    have hroom : ∀ capacity ∈ c'.settings.shardCapacity?,
        (c'.shard (c'.shardOf shape)).length < capacity := by simp [hcapacity]
    simp only [habsent, if_true]
    exact congrArg (fun c => (value, count c _)) (evict_of_room hroom)

/-- **An insertion hands out the first value of its shape.** -/
theorem fst_insert (h : c.IsFilled hash inserted) (hshape : shape.IsNormal hash)
    (hcacheable : shape.isCacheable = true) (value : α) :
    some (c.insert shape value).1 =
      ((inserted ++ [(shape, value)]).find? fun kept => kept.1.agrees shape).map Prod.snd := by
  rw [PlanCache.fst_insert, if_pos ((h.serves_eq shape).trans hcacheable), h.first hshape,
    List.find?_append]
  cases inserted.find? fun kept => kept.1.agrees shape with
  | some kept => rfl
  | none => simp [hshape.agrees_self hcacheable]

/-- What the cache keeps for a shape is the first value of it and nothing else. -/
theorem filter_agrees (h : c.IsFilled hash inserted) (hshape : shape.IsNormal hash) :
    c.entries.filter (fun kept => kept.1.agrees shape) =
      (inserted.find? fun kept => kept.1.agrees shape).toList := by
  rw [← h.first hshape]
  have hnodup : (c.entries.filter fun kept => kept.1.agrees shape).Nodup :=
    (List.Nodup.of_map _ h.keyed.nodup).filter _
  cases hfind : c.find? shape with
  | none =>
    refine List.filter_eq_nil_iff.2 fun kept hkept => ?_
    exact List.find?_eq_none.1 hfind kept hkept
  | some found =>
    refine List.perm_singleton.1 ((List.perm_ext_iff_of_nodup hnodup (List.nodup_singleton _)).2 ?_)
    intro kept
    rw [List.mem_filter, List.mem_singleton]
    constructor
    · rintro ⟨hkept, hagrees⟩
      have hkey := (((h.keyed.normal kept hkept).agrees_iff hshape).1 hagrees).2
      have hfound := (h.keyed.find?_eq_some_iff hshape).2 ⟨hkept, hkey⟩
      exact (Option.some.inj (hfind.symm.trans hfound)).symm
    · rintro rfl
      exact mem_of_find? hfind

/-- All that is kept was put in. -/
theorem entries_subset (h : c.IsFilled hash inserted) : c.entries ⊆ inserted := by
  intro kept hkept
  have hshape := h.keyed.normal kept hkept
  have hfind := (h.keyed.find?_eq_some_iff hshape).2 ⟨hkept, rfl⟩
  rw [h.first hshape] at hfind
  exact List.mem_of_find?_eq_some hfind

/-- Whatever was put in, there is one value for its shape. -/
theorem exists_filter_agrees (h : c.IsFilled hash inserted) (hkept : kept ∈ inserted) :
    ∃ first, (inserted.find? fun other => other.1.agrees kept.1) = some (kept.1, first) ∧
      c.entries.filter (fun other => other.1.agrees kept.1) = [(kept.1, first)] := by
  obtain ⟨hshape, hcacheable⟩ := h.normal kept hkept
  have hfound : (inserted.find? fun other => other.1.agrees kept.1).isSome :=
    List.find?_isSome.2 ⟨kept, hkept, hshape.agrees_self hcacheable⟩
  obtain ⟨first, hfirst⟩ := Option.isSome_iff_exists.1 hfound
  have hmem := h.normal first (List.mem_of_find?_eq_some hfirst)
  have hkey : first.1 = kept.1 :=
    ((hmem.1.agrees_iff hshape).1 (by simpa only using List.find?_some hfirst)).2
  have heq : first = (kept.1, first.2) := Prod.ext hkey rfl
  rw [h.filter_agrees hshape, hfirst]
  exact ⟨first.2, congrArg some heq, congrArg (fun kept => [kept]) heq⟩

end IsFilled

end PlanCache

end QueryPlans
