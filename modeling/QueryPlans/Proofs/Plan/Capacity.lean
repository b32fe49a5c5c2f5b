import Mathlib.Algebra.BigOperators.Group.Finset.Piecewise
import Mathlib.Algebra.Order.BigOperators.Group.Finset
import QueryPlans.Proofs.Plan.Preparing
import QueryPlans.Proofs.Plan.Transparency

/-!
# Proofs/Plan/Capacity — how many plans a bounded cache holds

Every shard has its share of the capacity, which is one plan at least, and never holds more
(`PlanCache.IsShared`).  This is a property of look-ups, insertions and clearings, and whatever
these keep is kept by preparing too (`Engine.cache_use`).  The shards together make up the cache
(`PlanCache.size_eq_sum`), so the shares together bound it.

With as many plans allowed as there are shards, the shares add up to no more than the capacity.
With fewer, each share is one plan, and the cache holds as many as there are shards with a plan:
the capacity bounds it only as long as no more shards than that have one.
-/

namespace QueryPlans

variable {σ P α : Type}

/-! ## Uses of an engine -/

namespace Engine

/-- What clients do with an engine and with its cache. -/
inductive Use (P : Type) where
  | prepare (r : Request)
  | lookUp (shape : Shape)
  | keep (shape : Shape) (entry : PlanEntry P)
  | clear

/-- The engine after a use. -/
def use (e : Engine σ P) : Use P → Engine σ P
  | .prepare r => (e.prepare r).2
  | .lookUp shape => (e.lookUp shape).2
  | .keep shape entry => (e.keep shape entry).2
  | .clear => e.clear

/-- The engine after several uses. -/
def useAll (e : Engine σ P) (uses : List (Use P)) : Engine σ P := uses.foldl use e

variable {q : PlanCache (PlanEntry P) → Prop} {e : Engine σ P}

/-- **What the calls of a cache keep is kept by every use of its engine.** -/
theorem cache_use (hget : ∀ c shape, q c → q (c.get shape).2)
    (hinsert : ∀ c shape entry, q c → q (c.insert shape entry).2) (hclear : ∀ c, q c → q c.clear)
    (h : q e.cache) (u : Use P) : q (e.use u).cache := by
  cases u with
  | prepare r =>
    have hprepares := (e.prepares r).2
    change q (e.prepare r).2.cache
    generalize (e.prepare r).1 = outcome, (e.prepare r).2.cache = cache',
      (e.prepare r).2.compilerState = state, (e.prepare r).2.nextSerial = serial at hprepares ⊢
    cases hprepares with
    | rejected _ => exact h
    | @found n _ _ _ hfound _ =>
      have hcache := hget _ n.shape h
      rwa [hfound] at hcache
    | @failed n _ _ _ _ hmissed _ =>
      have hcache := hget _ n.shape h
      rwa [hmissed] at hcache
    | @compiled n plan cache _ _ _ _ hmissed _ hinserted _ =>
      have hcache := hget _ n.shape h
      rw [hmissed] at hcache
      have hcache' := hinsert cache n.shape (e.newEntry n plan).1 hcache
      rwa [hinserted] at hcache'
  | lookUp shape => exact hget _ shape h
  | keep shape entry => exact hinsert _ shape entry h
  | clear => exact hclear _ h

/-- **An invariant of the cache** is kept by all that may be done with an engine. -/
theorem cache_useAll (hget : ∀ c shape, q c → q (c.get shape).2)
    (hinsert : ∀ c shape entry, q c → q (c.insert shape entry).2) (hclear : ∀ c, q c → q c.clear)
    (h : q e.cache) (uses : List (Use P)) : q (e.useAll uses).cache := by
  induction uses generalizing e with
  | nil => exact h
  | cons u rest ih => exact ih (cache_use hget hinsert hclear h u)

end Engine

/-! ## Shares -/

namespace PlanCache

variable {settings : CacheSettings} {c c' : PlanCache α}

/-- **A cache whose shards keep to their shares.** -/
structure IsShared (settings : CacheSettings) (c : PlanCache α) : Prop where
  settings_eq : c.settings = settings
  length_le : ∀ share ∈ settings.shardCapacity?, ∀ index, (c.shard index).length ≤ share

/-- An empty cache is within its shares. -/
theorem IsShared.ofSettings (settings : CacheSettings) :
    (PlanCache.ofSettings settings : PlanCache α).IsShared settings :=
  ⟨rfl, fun _ _ _ => Nat.zero_le _⟩

/-- Other entries keep to the shares too, if each shard has as many of them or still fits. -/
theorem IsShared.of_entries (h : c.IsShared settings) {entries : List (Shape × α)}
    {stats : CacheStats}
    (hlength : ∀ index, (entries.filter fun kept => c.shardOf kept.1 == index).length ≤
        (c.shard index).length ∨
      ∀ share ∈ settings.shardCapacity?,
        (entries.filter fun kept => c.shardOf kept.1 == index).length ≤ share) :
    IsShared settings ⟨c.settings, entries, stats⟩ where
  settings_eq := h.settings_eq
  length_le share hshare index := by
    rcases hlength index with hle | hfits
    · exact hle.trans (h.length_le share hshare index)
    · exact hfits share hshare

/-- Entries in another order are in the same shards. -/
theorem IsShared.of_perm (h : c.IsShared settings) {entries : List (Shape × α)}
    {stats : CacheStats} (hperm : entries.Perm c.entries) :
    IsShared settings ⟨c.settings, entries, stats⟩ :=
  h.of_entries fun _ => .inl (hperm.filter _).length_eq.le

/-- A look-up moves entries within their shard. -/
theorem IsShared.get (h : c.IsShared settings) (shape : Shape) :
    (c.get shape).2.IsShared settings := by
  have hgets := c.gets shape
  generalize c.get shape = outcome at hgets ⊢
  cases hgets with
  | passed _ => exact h
  | hit _ hentries _ => exact h.of_perm (hentries ▸ List.perm_middle.symm)
  | missed _ _ => exact h.of_perm (List.Perm.refl _)

/-- An insertion puts a value into a shard with room, or into the place of another of its shard. -/
theorem IsShared.insert (h : c.IsShared settings) (shape : Shape) (value : α) :
    (c.insert shape value).2.IsShared settings := by
  have hinserts := c.inserts shape value
  generalize c.insert shape value = outcome at hinserts ⊢
  cases hinserts with
  | passed _ => exact h
  | lost _ hentries _ => exact h.of_perm (hentries ▸ List.perm_middle.symm)
  | published _ _ hroom =>
    rw [h.settings_eq] at hroom
    refine h.of_entries fun index => ?_
    rw [List.filter_cons]
    split
    · next hindex =>
      obtain rfl := beq_iff_eq.1 hindex
      exact .inr hroom
    · exact .inl (Nat.le_refl _)
  | @evicted _ before after old _ _ _ _ hentries hold _ =>
    refine h.of_entries fun index => .inl ?_
    have hsame : (c.shardOf shape == index) = (c.shardOf old.1 == index) := by rw [hold]
    have hmiddle : (before ++ old :: after).Perm (old :: (before ++ after)) := List.perm_middle
    rw [shard, hentries, (hmiddle.filter _).length_eq, List.filter_cons, List.filter_cons, hsame]
    split <;> exact Nat.le_refl _

theorem IsShared.clear (h : c.IsShared settings) : c.clear.IsShared settings :=
  ⟨h.settings_eq, fun _ _ _ => Nat.zero_le _⟩

/-! ## All shards together -/

/-- The shards that hold something. -/
def occupied (c : PlanCache α) : Finset Nat :=
  (Finset.range c.settings.shardCount).filter fun index => c.shard index ≠ []

/-- Entries are counted shard by shard. -/
theorem length_eq_sum_filter {β : Type} {f : β → Nat} {n : Nat} {bs : List β}
    (h : ∀ b ∈ bs, f b < n) :
    bs.length = ∑ index ∈ Finset.range n, (bs.filter fun b => f b == index).length := by
  induction bs with
  | nil => simp
  | cons b rest ih =>
    obtain ⟨hb, hrest⟩ := List.forall_mem_cons.1 h
    have hlength (index : Nat) : ((b :: rest).filter fun b => f b == index).length =
        (rest.filter fun b => f b == index).length + if f b = index then 1 else 0 := by
      rw [List.filter_cons]
      split <;> simp_all
    simp only [hlength, Finset.sum_add_distrib, ← ih hrest, Finset.sum_ite_eq, Finset.mem_range,
      hb, if_true, List.length_cons]

/-- **A cache is made up of its shards.** -/
theorem size_eq_sum (c : PlanCache α) :
    c.size = ∑ index ∈ Finset.range c.settings.shardCount, (c.shard index).length :=
  length_eq_sum_filter fun _ _ =>
    Nat.mod_lt _ (Nat.lt_of_lt_of_le Nat.one_pos (Nat.le_max_left 1 _))

namespace IsShared

variable {share capacity : Nat}

/-- **The shares together bound the cache.** -/
theorem size_le (h : c.IsShared settings) (hshare : settings.shardCapacity? = some share) :
    c.size ≤ settings.shardCount * share := by
  rw [c.size_eq_sum, h.settings_eq]
  have hsum := Finset.sum_le_card_nsmul (Finset.range settings.shardCount)
    (fun index => (c.shard index).length) share fun index _ => h.length_le share hshare index
  rwa [Finset.card_range, Nat.nsmul_eq_mul] at hsum

/-- With shares of one, there are as many plans as shards that hold one. -/
theorem size_eq_card_occupied (h : c.IsShared settings)
    (hshare : settings.shardCapacity? = some 1) : c.size = c.occupied.card := by
  rw [c.size_eq_sum, occupied, Finset.card_filter]
  refine Finset.sum_congr rfl fun index _ => ?_
  have hle := h.length_le 1 hshare index
  split
  · next hne => exact Nat.le_antisymm hle (List.length_pos_of_ne_nil hne)
  · next hnil => rw [not_not.1 hnil, List.length_nil]

/-- **The capacity bounds a cache** if there are no more shards than that, or no more of them hold
something. -/
theorem size_le_capacity_iff (h : c.IsShared settings)
    (hcapacity : settings.capacity = some capacity) :
    c.size ≤ capacity ↔ settings.shardCount ≤ capacity ∨ c.occupied.card ≤ capacity := by
  have hshare : settings.shardCapacity? = some (max 1 (capacity / settings.shardCount)) := by
    rw [CacheSettings.shardCapacity?, hcapacity, Option.map_some]
  rcases Nat.lt_or_ge capacity settings.shardCount with hfew | hmany
  · rw [Nat.div_eq_of_lt hfew] at hshare
    rw [h.size_eq_card_occupied hshare]
    simp [Nat.not_le.2 hfew]
  · have hone : 1 ≤ capacity / settings.shardCount :=
      Nat.div_pos hmany (Nat.lt_of_lt_of_le Nat.one_pos (Nat.le_max_left 1 _))
    rw [Nat.max_eq_right hone] at hshare
    have hsize := (h.size_le hshare).trans (Nat.mul_div_le capacity settings.shardCount)
    simp [hmany, hsize]

end IsShared

end PlanCache

/-! ## Settings that are valid -/

/-- Settings that were validated have as many shards as they say. -/
theorem Settings.shardCount_of_validate {settings : Settings} (h : settings.validate = .ok ()) :
    settings.cache.shardCount = settings.cache.shards := by
  rw [validate] at h
  split at h
  · cases h
  · next hshards => exact Nat.max_eq_right (Nat.one_le_iff_ne_zero.2 hshards)

/-- **The shards of a bounded cache keep to their shares**, whatever is done with the engine: each
holds its share of the capacity at most and at least one plan's worth of it, so that the shares
together bound the cache.  The capacity itself bounds it as long as there are no more shards than
plans allowed, or no more of them hold a plan. -/
theorem Engine.cache_within_shares (compiler : Compiler σ P) (state : σ) {settings : Settings}
    (hvalid : settings.validate = .ok ()) {capacity : Nat}
    (hcapacity : settings.cache.capacity = some capacity) (uses : List (Use P)) :
    let cache := ((ofSettings compiler state settings).useAll uses).cache
    let share := max 1 (capacity / settings.cache.shards)
    (∀ index, (cache.shard index).length ≤ share) ∧
    cache.size ≤ settings.cache.shards * share ∧
    (cache.size ≤ capacity ↔
      settings.cache.shards ≤ capacity ∨ cache.occupied.card ≤ capacity) := by
  intro cache share
  have hshared : cache.IsShared settings.cache :=
    cache_useAll (fun _ shape h => h.get shape) (fun _ shape entry h => h.insert shape entry)
      (fun _ h => h.clear) (.ofSettings settings.cache) uses
  have hcount := Settings.shardCount_of_validate hvalid
  have hshare : settings.cache.shardCapacity? = some share := by
    rw [CacheSettings.shardCapacity?, hcapacity, Option.map_some, hcount]
  have hsize := hshared.size_le hshare
  have hiff := hshared.size_le_capacity_iff hcapacity
  rw [hcount] at hsize hiff
  exact ⟨hshared.length_le share hshare, hsize, hiff⟩

/-! ## More shards than plans -/

/-- All entities of a set. -/
def Request.allOf (name : String) : Request := { Request.empty with path := [.entitySet name] }

/-- Three sets are prepared in two shards that share a capacity of two. -/
theorem Engine.cache_within_shares_entitySets :
    let engine := (ofSettings .counting 0 ⟨⟨true, 2, some 2⟩, 1⟩).useAll
      [.prepare (.allOf "Albums"), .prepare (.allOf "Bands"), .prepare (.allOf "Clubs")]
    (∀ index, (engine.cache.shard index).length ≤ 1) ∧ engine.cache.size ≤ 2 := by
  intro engine
  have hvalid : Settings.validate ⟨⟨true, 2, some 2⟩, 1⟩ = .ok () := rfl
  obtain ⟨hshards, hsize, -⟩ := cache_within_shares .counting 0 hvalid rfl
    [.prepare (.allOf "Albums"), .prepare (.allOf "Bands"), .prepare (.allOf "Clubs")]
  exact ⟨hshards, hsize⟩

/-- **A capacity of one is no bound**: two sets that belong to different shards are both kept. -/
theorem Engine.entitySets_exceed_capacity :
    ¬∀ (settings : Settings) (capacity : Nat) (uses : List (Use (List Slot))),
      settings.validate = .ok () → settings.cache.capacity = some capacity →
      ((ofSettings .counting 0 settings).useAll uses).cache.size ≤ capacity := by
  intro h
  have hsize := h ⟨⟨true, 16, some 1⟩, 1⟩ 1
    [.prepare (.allOf "Albums"), .prepare (.allOf "Bands")] rfl rfl
  exact absurd hsize (by decide +kernel)

end QueryPlans
