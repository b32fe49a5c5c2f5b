import QueryPlans.Proofs.Plan.Touches

/-!
# Proofs/Plan/Recency — a bounded cache keeps what was used last

The touches of a shard, each shape once and the latest in front, say what the shard holds: as many
shapes as fit, from the front, each with the value that was published last for it
(`WatchedCache.IsRecent`).  A touch moves its shape to the front of both lists, and what falls off
the end of the shard is what no longer fits.  A look-up therefore finds the value of a shape unless
too many other shapes of the shard were touched since the shape was.
-/

namespace QueryPlans

variable {α : Type} {hash : ByteHash}

/-! ## What a shard holds -/

/-- **A shard holds what was touched last**: as many shapes as fit, each with the value that was
published last for it. -/
structure WatchedCache.IsRecent (hash : ByteHash) (bound : Nat) (w : WatchedCache α) : Prop where
  bounded : w.cache.settings.shardCapacity? = some (bound + 1)
  keyed : w.cache.IsKeyed hash
  served : ∀ shape ∈ w.touched, shape.IsNormal hash ∧ w.cache.serves shape = true
  keys : ∀ index, (w.cache.shard index).map Prod.fst = (w.recent index).take (bound + 1)
  values : ∀ kept ∈ w.cache.entries, w.lastPublished? kept.1 = some kept.2

namespace WatchedCache

variable {w : WatchedCache α} {bound index : Nat} {shape : Shape} {value : α}

/-- A touch puts a shape in front of its shard. -/
theorem recent_cons (cache : PlanCache α) (touch : Touch α) (touches : List (Touch α))
    (index : Nat) :
    recent ⟨cache, touch :: touches⟩ index =
      if cache.shardOf touch.shape = index then
        touch.shape :: (recent ⟨cache, touches⟩ index).eraseP fun other =>
          other.agrees touch.shape
      else recent ⟨cache, touches⟩ index := by
  rw [recent, touched, List.map_cons, List.filter_cons]
  split
  · next h => rw [if_pos (by simpa using h)]; rfl
  · next h => rw [if_neg (by simpa using h)]; rfl

/-- The latest touch is asked first. -/
theorem lastPublished?_cons (cache : PlanCache α) (touch : Touch α) (touches : List (Touch α))
    (shape : Shape) :
    lastPublished? ⟨cache, touch :: touches⟩ shape =
      (if touch.shape.agrees shape then touch.published else none).or
        (lastPublished? ⟨cache, touches⟩ shape) := by
  rw [lastPublished?, List.findSome?_cons]
  split
  · next h => rw [h, Option.some_or]
  · next h => rw [h, Option.none_or]; rfl

/-- What was published was touched. -/
theorem mem_touched_of_lastPublished? (hserved : ∀ shape ∈ w.touched, shape.IsNormal hash)
    (hshape : shape.IsNormal hash) (h : w.lastPublished? shape = some value) :
    shape ∈ w.touched := by
  obtain ⟨touch, htouch, hfound⟩ := List.exists_of_findSome?_eq_some h
  have hagrees : touch.shape.agrees shape = true := by
    by_contra hdiffers
    simp [hdiffers] at hfound
  have hmem : touch.shape ∈ w.touched := List.mem_map_of_mem htouch
  exact (((hserved _ hmem).agrees_iff hshape).1 hagrees).2 ▸ hmem

/-- A shape is among the first of its shard unless it has too many rivals. -/
theorem mem_take_recent_iff (hserved : ∀ shape ∈ w.touched, shape.IsNormal hash)
    (hcacheable : shape.isCacheable = true) (hmem : shape ∈ w.touched) (n : Nat) :
    shape ∈ (w.recent (w.cache.shardOf shape)).take n ↔ (w.rivals shape).length < n := by
  have hsame : (fun other : Shape => !(w.cache.shardOf other == w.cache.shardOf shape) ||
      !other.agrees shape) = fun other => !other.agrees shape := by
    funext other
    cases hagrees : other.agrees shape with
    | false => simp
    | true =>
      simp only [Shape.agrees, Bool.and_eq_true, beq_iff_eq] at hagrees
      simp [PlanCache.shardOf, hagrees.1.2]
  have hshard : ∀ other ∈ w.touched.filter fun other =>
      w.cache.shardOf other == w.cache.shardOf shape, other.IsNormal hash :=
    fun other hother => hserved other (List.mem_filter.1 hother).1
  have hmem' : shape ∈ w.touched.filter fun other =>
      w.cache.shardOf other == w.cache.shardOf shape := List.mem_filter.2 ⟨hmem, BEq.rfl⟩
  rw [recent, Shape.mem_take_distinct_iff hshard hcacheable hmem' n, rivals,
    List.takeWhile_filter, hsame]

namespace IsRecent

/-- Nothing is recent in an empty cache. -/
theorem ofSettings {settings : CacheSettings}
    (hbound : settings.shardCapacity? = some (bound + 1)) :
    (WatchedCache.ofSettings settings : WatchedCache α).IsRecent hash bound where
  bounded := hbound
  keyed := .ofSettings settings
  served _ h := nomatch h
  keys _ := rfl
  values _ h := nomatch h

/-- A touch that puts its shape in front of its shard, drops at most what no longer fits and leaves
the other shards alone. -/
theorem cons (h : w.IsRecent hash bound) {entries : List (Shape × α)} {stats : CacheStats}
    {touch : Touch α} (hshape : touch.shape.IsNormal hash)
    (hserves : w.cache.serves touch.shape = true)
    (hkeyed : PlanCache.IsKeyed hash ⟨w.cache.settings, entries, stats⟩)
    (hfront : (entries.filter fun kept =>
        w.cache.shardOf kept.1 == w.cache.shardOf touch.shape).map Prod.fst =
      touch.shape :: (((w.cache.shard (w.cache.shardOf touch.shape)).map Prod.fst).eraseP
        fun other => other.agrees touch.shape).take bound)
    (hothers : ∀ index, w.cache.shardOf touch.shape ≠ index →
      (entries.filter fun kept => w.cache.shardOf kept.1 == index) = w.cache.shard index)
    (hvalues : ∀ kept ∈ entries,
      (if touch.shape.agrees kept.1 then touch.published else none).or
        (w.lastPublished? kept.1) = some kept.2) :
    IsRecent hash bound ⟨⟨w.cache.settings, entries, stats⟩, touch :: w.touches⟩ where
  bounded := h.bounded
  keyed := hkeyed
  served := List.forall_mem_cons.2 ⟨⟨hshape, hserves⟩, h.served⟩
  keys index := by
    rw [recent_cons]
    split
    · next hindex =>
      -- The shard of the touched shape: a copy behind the bound is not among its keys anyway.
      subst hindex
      have hkeys := h.keys (w.cache.shardOf touch.shape)
      rw [hkeys, take_eraseP_take] at hfront
      exact hfront
    · next hindex => exact (congrArg _ (hothers index hindex)).trans (h.keys index)
  values kept hkept := (lastPublished?_cons _ touch w.touches kept.1).trans (hvalues kept hkept)

/-- No shard is over its bound. -/
theorem length_shard_le (h : w.IsRecent hash bound) (index : Nat) :
    (w.cache.shard index).length ≤ bound + 1 := by
  rw [← List.length_map Prod.fst, h.keys, List.length_take]
  exact Nat.min_le_left _ _

/-- A shape that is found moves to the front, among the entries and among the touches. -/
theorem moved (h : w.IsRecent hash bound) (hshape : shape.IsNormal hash)
    (hserves : w.cache.serves shape = true) {stats : CacheStats} {before after : List (Shape × α)}
    {kept : Shape × α} (hentries : w.cache.entries = before ++ kept :: after)
    (hagrees : kept.1.agrees shape = true) :
    IsRecent hash bound ⟨⟨w.cache.settings, kept :: (before ++ after), stats⟩,
      ⟨shape, none⟩ :: w.touches⟩ := by
  have hperm : (kept :: (before ++ after)).Perm w.cache.entries := hentries ▸ List.perm_middle.symm
  have hkept : kept ∈ w.cache.entries := hperm.subset List.mem_cons_self
  obtain rfl : kept.1 = shape := (((h.keyed.normal kept hkept).agrees_iff hshape).1 hagrees).2
  have hbefore : ∀ other ∈ before, ¬other.1.agrees kept.1 = true := by
    intro other hother hother_agrees
    have hnodup := h.keyed.nodup
    rw [hentries, List.map_append, List.nodup_append] at hnodup
    have hmem : other ∈ w.cache.entries := hentries ▸ List.mem_append_left _ hother
    exact hnodup.2.2 other.1 (List.mem_map_of_mem hother) kept.1 List.mem_cons_self
      (((h.keyed.normal other hmem).agrees_iff hshape).1 hother_agrees).2
  refine h.cons hshape hserves (h.keyed.of_perm hperm) ?_ ?_ ?_
  · -- What stands in front of the value in its shard is for other shapes.
    have hfits := h.length_shard_le (w.cache.shardOf kept.1)
    have hkeys : ∀ other ∈ (before.filter fun other =>
        w.cache.shardOf other.1 == w.cache.shardOf kept.1).map Prod.fst,
        ¬other.agrees kept.1 = true := by
      intro other hother
      obtain ⟨entry, hentry, rfl⟩ := List.mem_map.1 hother
      exact hbefore entry (List.mem_filter.1 hentry).1
    simp only [PlanCache.shard, hentries, List.filter_append, List.filter_cons, BEq.rfl, if_true,
      List.map_append, List.map_cons, List.length_append, List.length_cons] at hfits ⊢
    rw [List.eraseP_append_right _ hkeys,
      List.eraseP_cons_of_pos (p := fun other : Shape => other.agrees kept.1) hagrees,
      List.take_of_length_le]
    simp only [List.length_append, List.length_map]
    omega
  · intro index hindex
    simp [PlanCache.shard, hentries, hindex]
  · intro other hother
    rw [ite_self, Option.none_or]
    exact h.values other (hperm.subset hother)

/-- What has just been put in was published last; the other values are for other shapes. -/
theorem values_put (h : w.IsRecent hash bound) (hshape : shape.IsNormal hash)
    (hserves : w.cache.serves shape = true) (habsent : w.cache.find? shape = none)
    {rest : List (Shape × α)} (hrest : rest ⊆ w.cache.entries) :
    ∀ kept ∈ (shape, value) :: rest,
      (if shape.agrees kept.1 then some value else none).or (w.lastPublished? kept.1) =
        some kept.2 := by
  refine List.forall_mem_cons.2 ⟨?_, fun kept hkept => ?_⟩
  · rw [if_pos (hshape.agrees_self ((Bool.and_eq_true _ _).mp hserves).2), Option.some_or]
  · have hmem := hrest hkept
    have hdiffers : ¬shape.agrees kept.1 = true := by
      intro hagrees
      have hkey := ((hshape.agrees_iff (h.keyed.normal kept hmem)).1 hagrees).2
      exact (h.keyed.find?_eq_none_iff hshape).1 habsent (hkey ▸ List.mem_map_of_mem hmem)
    rw [if_neg hdiffers, Option.none_or]
    exact h.values kept hmem

/-- A shape without a value is not in its shard. -/
theorem eraseP_of_absent (habsent : w.cache.find? shape = none) (index : Nat) :
    ((w.cache.shard index).map Prod.fst).eraseP (fun other => other.agrees shape) =
      (w.cache.shard index).map Prod.fst := by
  refine List.eraseP_of_forall_not fun other hother => ?_
  obtain ⟨kept, hkept, rfl⟩ := List.mem_map.1 hother
  exact List.find?_eq_none.1 habsent kept (List.mem_filter.1 hkept).1

/-- A shape that finds room is the most recent of its shard. -/
theorem added (h : w.IsRecent hash bound) (hshape : shape.IsNormal hash)
    (hserves : w.cache.serves shape = true) (habsent : w.cache.find? shape = none)
    (hroom : ∀ capacity ∈ w.cache.settings.shardCapacity?,
      (w.cache.shard (w.cache.shardOf shape)).length < capacity) {stats : CacheStats} :
    IsRecent hash bound ⟨⟨w.cache.settings, (shape, value) :: w.cache.entries, stats⟩,
      ⟨shape, some value⟩ :: w.touches⟩ := by
  have hkeyed := h.keyed.putInFront hshape hserves habsent value
  refine h.cons hshape hserves (hkeyed.of_sublist (List.Sublist.refl _)) ?_ ?_
    (h.values_put hshape hserves habsent (List.Subset.refl _))
  · have hfits := hroom _ h.bounded
    rw [eraseP_of_absent habsent, List.take_of_length_le]
    · simp [PlanCache.shard]
    · rw [List.length_map]
      exact Nat.le_of_lt_succ hfits
  · intro index hindex
    simp [PlanCache.shard, hindex]

/-- **A shape that finds none** takes the place of the one least recently touched in its shard. -/
theorem replaced (h : w.IsRecent hash bound) (hshape : shape.IsNormal hash)
    (hserves : w.cache.serves shape = true) (habsent : w.cache.find? shape = none)
    {stats : CacheStats} {capacity : Nat} {before after : List (Shape × α)} {old : Shape × α}
    (hcapacity : w.cache.settings.shardCapacity? = some capacity)
    (hfull : capacity ≤ (w.cache.shard (w.cache.shardOf shape)).length)
    (hentries : w.cache.entries = before ++ old :: after)
    (hold : w.cache.shardOf old.1 = w.cache.shardOf shape)
    (hlast : ∀ kept ∈ after, w.cache.shardOf kept.1 ≠ w.cache.shardOf shape) :
    IsRecent hash bound ⟨⟨w.cache.settings, (shape, value) :: (before ++ after), stats⟩,
      ⟨shape, some value⟩ :: w.touches⟩ := by
  have hsublist : (before ++ after).Sublist w.cache.entries :=
    hentries ▸ List.Sublist.append_left (List.sublist_cons_self _ _) _
  have hkeyed := h.keyed.putInFront hshape hserves habsent value
  refine h.cons hshape hserves (hkeyed.of_sublist (hsublist.cons_cons _)) ?_ ?_
    (h.values_put hshape hserves habsent hsublist.subset)
  · -- The dropped value is the last one of its shard.
    have hafter : (after.filter fun kept =>
        w.cache.shardOf kept.1 == w.cache.shardOf shape) = [] :=
      List.filter_eq_nil_iff.2 fun kept hkept => by simpa using hlast kept hkept
    have hfits := h.length_shard_le (w.cache.shardOf shape)
    cases h.bounded.symm.trans hcapacity
    rw [eraseP_of_absent habsent]
    simp only [PlanCache.shard, hentries, List.filter_append, List.filter_cons, hold, BEq.rfl,
      if_true, hafter, List.append_nil, List.map_append, List.map_cons, List.map_nil,
      List.length_append, List.length_singleton] at hfits hfull ⊢
    rw [List.take_left']
    rw [List.length_map]
    omega
  · intro index hindex
    have hindex' : ¬w.cache.shardOf old.1 = index := hold ▸ hindex
    simp [PlanCache.shard, hentries, hindex, hindex']

/-- **One call keeps the shards at what was touched last.** -/
theorem step (h : w.IsRecent hash bound) (call : CacheCall α)
    (hcall : ∀ shape ∈ call.shape?, shape.IsNormal hash) : (w.step call).IsRecent hash bound := by
  have hwatches := w.watches call
  generalize w.step call = w' at hwatches ⊢
  cases hwatches with
  | untouched =>
    exact ⟨h.bounded, h.keyed.of_sublist (List.Sublist.refl _), h.served, h.keys, h.values⟩
  | moved hshape? hserves hentries hagrees =>
    exact h.moved (hcall _ hshape?) hserves hentries hagrees
  | added hserves habsent hroom => exact h.added (hcall _ rfl) hserves habsent hroom
  | replaced hserves habsent hcapacity hfull hentries hold hlast =>
    exact h.replaced (hcall _ rfl) hserves habsent hcapacity hfull hentries hold hlast
  | cleared =>
    exact ⟨h.bounded, h.keyed.clear, fun _ h => (nomatch h), fun _ => rfl, fun _ h => (nomatch h)⟩

/-- Every sequence of calls keeps what is recent. -/
theorem run (h : w.IsRecent hash bound) (calls : List (CacheCall α))
    (hcalls : ∀ call ∈ calls, ∀ shape ∈ call.shape?, shape.IsNormal hash) :
    (w.run calls).IsRecent hash bound := by
  induction calls generalizing w with
  | nil => exact h
  | cons call calls ih =>
    exact ih (h.step call (hcalls call List.mem_cons_self))
      fun other hother => hcalls other (.tail _ hother)

/-- **What is found for a shape** is what was published last for it, unless it has too many
rivals. -/
theorem map_find? (h : w.IsRecent hash bound) (hshape : shape.IsNormal hash) :
    (if w.cache.serves shape then (w.cache.find? shape).map Prod.snd else none) =
      if (w.rivals shape).length < bound + 1 then w.lastPublished? shape else none := by
  have hnormal : ∀ other ∈ w.touched, other.IsNormal hash := fun other hother =>
    (h.served other hother).1
  by_cases htouched : shape ∈ w.touched
  · have hserves := (h.served shape htouched).2
    have hcacheable := ((Bool.and_eq_true _ _).mp hserves).2
    have hkeys := h.keys (w.cache.shardOf shape)
    have hrivals := mem_take_recent_iff hnormal hcacheable htouched (bound + 1)
    rw [← hkeys] at hrivals
    rw [if_pos hserves]
    cases hfind : w.cache.find? shape with
    | none =>
      have habsent := (h.keyed.find?_eq_none_iff hshape).1 hfind
      rw [if_neg]
      · rfl
      · intro hlt
        obtain ⟨kept, hkept, rfl⟩ := List.mem_map.1 (hrivals.2 hlt)
        exact habsent (List.mem_map_of_mem (List.mem_filter.1 hkept).1)
    | some kept =>
      obtain ⟨hkept, rfl⟩ := (h.keyed.find?_eq_some_iff hshape).1 hfind
      have hshard : kept ∈ w.cache.shard (w.cache.shardOf kept.1) :=
        List.mem_filter.2 ⟨hkept, by simp⟩
      rw [if_pos (hrivals.1 (List.mem_map_of_mem hshard)), h.values kept hkept]
      rfl
  · -- Nothing was published for a shape that was not touched, and nothing is kept for it.
    have hunpublished : w.lastPublished? shape = none := by
      rw [Option.eq_none_iff_forall_ne_some]
      exact fun value hvalue => htouched (mem_touched_of_lastPublished? hnormal hshape hvalue)
    have habsent : w.cache.find? shape = none := by
      rw [Option.eq_none_iff_forall_ne_some]
      intro kept hfind
      obtain ⟨hkept, rfl⟩ := (h.keyed.find?_eq_some_iff hshape).1 hfind
      cases hunpublished.symm.trans (h.values kept hkept)
    rw [hunpublished, habsent, Option.map_none, ite_self, ite_self]

end IsRecent

/-- Without a clearing, what was taken in is still there or was evicted. -/
theorem isBalanced_run (h : w.cache.IsBalanced) (calls : List (CacheCall α))
    (hcalls : CacheCall.clear ∉ calls) : (w.run calls).cache.IsBalanced := by
  induction calls generalizing w with
  | nil => exact h
  | cons call calls ih =>
    rw [List.mem_cons, not_or] at hcalls
    refine ih (w := w.step call) ?_ hcalls.2
    cases call with
    | get shape => exact h.get shape
    | insert shape value => exact h.insert shape value
    | clear => exact absurd rfl hcalls.1

/-- **A bounded cache holds exactly what was used last.**  After any calls with shapes of requests,
each shard holds as many of the shapes that were touched last as fit; a look-up finds the value that
was published last for its shape unless too many other shapes of the shard were touched since the
shape was, and then it is at most counted; an insertion loses its race exactly where a look-up would
have found a value, and hands that out. -/
theorem run_holds_recent {settings : CacheSettings} {capacity : Nat}
    (hcapacity : settings.capacity = some capacity) (calls : List (CacheCall α))
    (hcalls : ∀ call ∈ calls, ∀ shape ∈ call.shape?, shape.IsNormal hash) :
    let w := (WatchedCache.ofSettings settings).run calls
    let bound := max 1 (capacity / max 1 settings.shards)
    (∀ index, (w.cache.shard index).map Prod.fst = (w.recent index).take bound) ∧
    (∀ shape, shape.IsNormal hash →
      (w.cache.get shape).1 =
        if (w.rivals shape).length < bound then w.lastPublished? shape else none) ∧
    (∀ shape value,
      (w.cache.insert shape value).1 = (w.cache.get shape).1.getD value ∧
      (w.cache.insert shape value).2.stats.racesLost =
        w.cache.stats.racesLost + if (w.cache.get shape).1.isSome then 1 else 0) ∧
    (∀ shape, (w.cache.get shape).1 = none →
      (w.cache.get shape).2 = w.cache ∨
        (w.cache.get shape).2 = w.cache.count fun s => { s with misses := s.misses + 1 }) ∧
    (∀ index, (w.cache.shard index).Pairwise fun a b => a.1.agrees b.1 = false) ∧
    (.clear ∉ calls → w.cache.size + w.cache.stats.evictions = w.cache.stats.inserts) := by
  intro w bound
  have hbound : bound - 1 + 1 = bound := Nat.sub_add_cancel (Nat.le_max_left 1 _)
  have hstart : (WatchedCache.ofSettings settings : WatchedCache α).IsRecent hash (bound - 1) := by
    refine .ofSettings ?_
    rw [CacheSettings.shardCapacity?, hcapacity, hbound]
    rfl
  have h : w.IsRecent hash (bound - 1) := hstart.run calls hcalls
  refine ⟨fun index => ?_, fun shape hshape => ?_, fun shape value => ?_, fun shape => ?_,
    fun index => ?_, fun hclear => ?_⟩
  · rw [h.keys, hbound]
  · rw [PlanCache.fst_get, h.map_find? hshape, hbound]
  · exact ⟨w.cache.fst_insert_eq shape value, w.cache.racesLost_insert shape value⟩
  · intro hnone
    rw [PlanCache.get_of_none hnone]
    split
    · exact .inr rfl
    · exact .inl rfl
  · exact h.keyed.pairwise.sublist List.filter_sublist
  · have hbalanced : (WatchedCache.ofSettings settings : WatchedCache α).cache.IsBalanced := rfl
    exact (isBalanced_run hbalanced calls hclear).symm

/-- The shape of all entities of a set. -/
def entitySet (name : String) : Shape :=
  .ofRequest (XXH64.hash 0) { Request.empty with path := [.entitySet name] } true

theorem isNormal_entitySet (name : String) : (entitySet name).IsNormal (XXH64.hash 0) :=
  ⟨{ Request.empty with path := [.entitySet name] }, ⟨entitySet name, .empty⟩, rfl, rfl⟩

/-- Of three shapes in a shard for two, the one goes that was not looked up in between. -/
theorem run_holds_recent_entitySets :
    let w := (WatchedCache.ofSettings ⟨true, 1, some 2⟩).run
      [.insert (entitySet "Albums") 1, .insert (entitySet "Bands") 2, .get (entitySet "Albums"),
        .insert (entitySet "Clubs") 3]
    (w.cache.shard 0).map Prod.fst = (w.recent 0).take 2 ∧
    (w.cache.get (entitySet "Albums")).1 = some 1 ∧
    (w.cache.get (entitySet "Bands")).1 = none ∧
    w.cache.size + w.cache.stats.evictions = w.cache.stats.inserts := by
  have hcalls : ∀ call ∈ [CacheCall.insert (entitySet "Albums") 1, .insert (entitySet "Bands") 2,
      .get (entitySet "Albums"), .insert (entitySet "Clubs") 3],
      ∀ shape ∈ call.shape?, shape.IsNormal (XXH64.hash 0) := by
    simp [CacheCall.shape?, isNormal_entitySet]
  have hcapacity : (⟨true, 1, some 2⟩ : CacheSettings).capacity = some 2 := rfl
  obtain ⟨hkeys, hget, -, -, -, hsize⟩ := run_holds_recent hcapacity _ hcalls
  refine ⟨hkeys 0, (hget _ (isNormal_entitySet _)).trans ?_,
    (hget _ (isNormal_entitySet _)).trans ?_, hsize (by simp)⟩
  · decide +kernel
  · decide +kernel

end WatchedCache

end QueryPlans
