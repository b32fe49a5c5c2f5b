import Mathlib.Data.List.Basic
import QueryPlans.Plan.Cache

/-!
# Proofs/Plan/Cache — a cache hands out what was put into it

Whatever holds of all that a cache keeps (`Keeps`) still holds after a look-up, a clearing and an
insertion of something of which it holds too.  Hits, races and evictions only move what is kept or
drop it; what is handed out was kept for a shape that agrees, or is what was just inserted.

All that a look-up or an insertion can do is listed once (`gets`, `inserts`), with the entries taken
apart at the place where something changes.
-/

namespace QueryPlans

namespace PlanCache

variable {α : Type} {c : PlanCache α} {shape : Shape} {kept : Shape × α} {value : α}

/-- What is found is kept, for a shape that agrees. -/
theorem mem_of_find? (h : c.find? shape = some kept) :
    kept ∈ c.entries ∧ kept.1.agrees shape = true := by
  rw [find?] at h
  exact ⟨List.mem_of_find?_eq_some h, by simpa only using List.find?_some h⟩

/-- Touching only moves entries. -/
theorem entries_touch_subset : (c.touch shape).entries ⊆ c.entries := by
  intro other hother
  rw [touch] at hother
  split at hother
  · exact hother
  · next kept hfind =>
    rcases List.mem_cons.1 hother with rfl | hother
    · exact (mem_of_find? hfind).1
    · exact List.mem_of_mem_eraseP hother

/-- Evicting only takes entries away. -/
theorem entries_evict_subset {index : Nat} : (c.evict index).entries ⊆ c.entries := by
  intro other hother
  rw [evict] at hother
  split at hother
  · exact hother
  · split at hother
    · exact List.mem_reverse.1 (List.mem_of_mem_eraseP (List.mem_reverse.1 hother))
    · exact hother

/-! ## What holds of all that is kept -/

/-- **Everything the cache keeps** is as it should be for its shape. -/
def Keeps (q : Shape → α → Prop) (c : PlanCache α) : Prop := ∀ kept ∈ c.entries, q kept.1 kept.2

namespace Keeps

variable {q : Shape → α → Prop}

/-- An empty cache keeps nothing. -/
theorem ofSettings (settings : CacheSettings) :
    (PlanCache.ofSettings settings : PlanCache α).Keeps q := by
  intro kept hkept
  cases hkept

/-- Fewer entries are kept as before. -/
theorem mono {c' : PlanCache α} (h : c.Keeps q) (hsubset : c'.entries ⊆ c.entries) : c'.Keeps q :=
  fun kept hkept => h kept (hsubset hkept)

theorem get (h : c.Keeps q) (shape : Shape) : (c.get shape).2.Keeps q := by
  rw [PlanCache.get]
  split
  · split
    · exact h.mono entries_touch_subset
    · exact h
  · exact h

/-- What is found was kept for a shape that agrees. -/
theorem of_get (h : c.Keeps q) (hget : (c.get shape).1 = some value) :
    ∃ shape', shape'.agrees shape = true ∧ q shape' value := by
  rw [PlanCache.get] at hget
  split at hget
  · split at hget
    · next kept hfind =>
      obtain ⟨hmem, hagrees⟩ := mem_of_find? hfind
      cases hget
      exact ⟨kept.1, hagrees, h kept hmem⟩
    · cases hget
  · cases hget

/-- An entry that is inserted has to fit; one that was there stays. -/
theorem insert (h : c.Keeps q) (hvalue : q shape value) : (c.insert shape value).2.Keeps q := by
  rw [PlanCache.insert]
  split
  · split
    · exact h.mono entries_touch_subset
    · refine mono (c := { c with entries := (shape, value) :: c.entries }) ?_ entries_evict_subset
      exact List.forall_mem_cons.2 ⟨hvalue, h⟩
  · exact h

/-- An insertion hands out the value itself, or what a race has kept for a shape that agrees. -/
theorem of_insert (h : c.Keeps q) (shape : Shape) (value : α) :
    (c.insert shape value).1 = value ∨
      ∃ shape', shape'.agrees shape = true ∧ q shape' (c.insert shape value).1 := by
  rw [PlanCache.insert]
  split
  · split
    · next kept hfind =>
      obtain ⟨hmem, hagrees⟩ := mem_of_find? hfind
      exact .inr ⟨kept.1, hagrees, h kept hmem⟩
    · exact .inl rfl
  · exact .inl rfl

theorem clear (h : c.Keeps q) : c.clear.Keeps q := h.mono (List.nil_subset _)

end Keeps

/-! ## All that a call can do -/

/-- **What a look-up does**: what it hands out and the cache it leaves behind. -/
inductive Gets (c : PlanCache α) (shape : Shape) : Option α × PlanCache α → Prop
  | passed (hserves : c.serves shape = false) : Gets c shape (none, c)
  | hit {before after : List (Shape × α)} {kept : Shape × α} (hserves : c.serves shape = true)
    (hentries : c.entries = before ++ kept :: after) (hagrees : kept.1.agrees shape = true) :
    Gets c shape (some kept.2,
      { c with
        entries := kept :: (before ++ after)
        stats := { c.stats with hits := c.stats.hits + 1 } })
  | missed (hserves : c.serves shape = true) (habsent : c.find? shape = none) :
    Gets c shape (none, { c with stats := { c.stats with misses := c.stats.misses + 1 } })

/-- **What an insertion does.** -/
inductive Inserts (c : PlanCache α) (shape : Shape) (value : α) : α × PlanCache α → Prop
  | passed (hserves : c.serves shape = false) : Inserts c shape value (value, c)
  | lost {before after : List (Shape × α)} {kept : Shape × α} (hserves : c.serves shape = true)
    (hentries : c.entries = before ++ kept :: after) (hagrees : kept.1.agrees shape = true) :
    Inserts c shape value (kept.2,
      { c with
        entries := kept :: (before ++ after)
        stats := { c.stats with racesLost := c.stats.racesLost + 1 } })
  | published (hserves : c.serves shape = true) (habsent : c.find? shape = none)
    (hroom : ∀ capacity ∈ c.settings.shardCapacity?,
      (c.shard (c.shardOf shape)).length < capacity) :
    Inserts c shape value (value,
      { c with
        entries := (shape, value) :: c.entries
        stats := { c.stats with inserts := c.stats.inserts + 1 } })
  | evicted {capacity : Nat} {before after : List (Shape × α)} {old : Shape × α}
    (hserves : c.serves shape = true) (habsent : c.find? shape = none)
    (hcapacity : c.settings.shardCapacity? = some capacity)
    (hfull : capacity ≤ (c.shard (c.shardOf shape)).length)
    (hentries : c.entries = before ++ old :: after) (hold : c.shardOf old.1 = c.shardOf shape)
    (hlast : ∀ kept ∈ after, c.shardOf kept.1 ≠ c.shardOf shape) :
    Inserts c shape value (value,
      { c with
        entries := (shape, value) :: (before ++ after)
        stats := { c.stats with
          inserts := c.stats.inserts + 1
          evictions := c.stats.evictions + 1 } })

/-- What agrees with a shape is taken out and put in front. -/
theorem exists_touch_eq (h : c.find? shape = some kept) :
    ∃ before after, c.entries = before ++ kept :: after ∧
      c.touch shape = { c with entries := kept :: (before ++ after) } := by
  have hfind := h
  rw [find?, List.find?_eq_some_iff_append] at hfind
  obtain ⟨hagrees, before, after, hentries, hbefore⟩ := hfind
  have herase : c.entries.eraseP (fun kept => kept.1.agrees shape) = before ++ after := by
    rw [hentries, List.eraseP_append_right _ (by simpa using hbefore)]
    exact congrArg (before ++ ·) (List.eraseP_cons_of_pos hagrees)
  refine ⟨before, after, hentries, ?_⟩
  simp only [touch, h, herase]

/-- **Every look-up is one of three.** -/
theorem gets (c : PlanCache α) (shape : Shape) : c.Gets shape (c.get shape) := by
  rw [get]
  cases hserves : c.serves shape with
  | false => exact .passed hserves
  | true =>
    cases hfind : c.find? shape with
    | none => exact .missed hserves hfind
    | some kept =>
      obtain ⟨before, after, hentries, htouch⟩ := exists_touch_eq hfind
      simp only [if_true, htouch]
      exact .hit hserves hentries (mem_of_find? hfind).2

/-- The cache with a new value in front, before anything is dropped. -/
def putInFront (c : PlanCache α) (shape : Shape) (value : α) : PlanCache α :=
  { c with entries := (shape, value) :: c.entries }

/-- Only the shard of the shape grows. -/
theorem length_shard_putInFront (c : PlanCache α) (shape : Shape) (value : α) :
    ((c.putInFront shape value).shard (c.shardOf shape)).length =
      (c.shard (c.shardOf shape)).length + 1 := by
  simp [shard, shardOf, putInFront]

/-- Where there is room, nothing is dropped. -/
theorem evict_of_room
    (h : ∀ capacity ∈ c.settings.shardCapacity?, (c.shard (c.shardOf shape)).length < capacity) :
    (c.putInFront shape value).evict (c.shardOf shape) = c.putInFront shape value := by
  rw [evict]
  split
  · rfl
  · next capacity hcapacity =>
    rw [length_shard_putInFront]
    exact if_neg (Nat.not_lt.2 (h capacity hcapacity))

/-- A full shard drops the last of its values, which is not the new one. -/
theorem evict_of_full {capacity : Nat} (hcapacity : c.settings.shardCapacity? = some capacity)
    (hfull : capacity ≤ (c.shard (c.shardOf shape)).length) :
    ∃ before old after, c.entries = before ++ old :: after ∧
      c.shardOf old.1 = c.shardOf shape ∧
      (∀ kept ∈ after, c.shardOf kept.1 ≠ c.shardOf shape) ∧
      (c.putInFront shape value).evict (c.shardOf shape) =
        { c with
          entries := (shape, value) :: (before ++ after)
          stats := { c.stats with evictions := c.stats.evictions + 1 } } := by
  have hpos : 0 < (c.shard (c.shardOf shape)).length := by
    obtain ⟨total, -, rfl⟩ := Option.map_eq_some_iff.1 hcapacity
    omega
  obtain ⟨member, hmember⟩ := List.exists_mem_of_length_pos hpos
  obtain ⟨hmem, hshard⟩ := List.mem_filter.1 hmember
  -- The entries are looked through from behind, so the first of the shard is its least recent.
  obtain ⟨old, later, earlier, hlater, hold, hreverse, herase⟩ :=
    List.exists_of_eraseP (p := fun kept => c.shardOf kept.1 == c.shardOf shape)
      (List.mem_reverse.2 hmem) hshard
  refine ⟨earlier.reverse, old, later.reverse, ?_, by simpa using hold, ?_, ?_⟩
  · simpa using congrArg List.reverse hreverse
  · intro kept hkept
    simpa using hlater kept (List.mem_reverse.1 hkept)
  · have hdropped : ((c.putInFront shape value).entries.reverse.eraseP
        fun kept => c.shardOf kept.1 == c.shardOf shape).reverse =
          (shape, value) :: (earlier.reverse ++ later.reverse) := by
      rw [putInFront, List.reverse_cons,
        List.eraseP_append_left (p := fun kept => c.shardOf kept.1 == c.shardOf shape) hshard _
          (List.mem_reverse.2 hmem), herase]
      simp
    rw [evict]
    split
    · next hnone => cases hnone.symm.trans hcapacity
    · next capacity' hcapacity' =>
      cases hcapacity'.symm.trans hcapacity
      rw [length_shard_putInFront, if_pos (Nat.lt_succ_of_le hfull)]
      simp only [count]
      exact congrArg (fun entries => PlanCache.mk c.settings entries _) hdropped

/-- **Every insertion is one of four.** -/
theorem inserts (c : PlanCache α) (shape : Shape) (value : α) :
    c.Inserts shape value (c.insert shape value) := by
  rw [insert]
  cases hserves : c.serves shape with
  | false => exact .passed hserves
  | true =>
    cases hfind : c.find? shape with
    | some kept =>
      obtain ⟨before, after, hentries, htouch⟩ := exists_touch_eq hfind
      simp only [if_true, htouch]
      exact .lost hserves hentries (mem_of_find? hfind).2
    | none =>
      change c.Inserts shape value (value,
        ((c.putInFront shape value).evict (c.shardOf shape)).count _)
      by_cases hroom : ∀ capacity ∈ c.settings.shardCapacity?,
          (c.shard (c.shardOf shape)).length < capacity
      · rw [evict_of_room hroom]
        exact .published hserves hfind hroom
      · simp only [not_forall, Nat.not_lt] at hroom
        obtain ⟨capacity, hcapacity, hfull⟩ := hroom
        obtain ⟨before, old, after, hentries, hold, hlast, hevict⟩ :=
          evict_of_full hcapacity hfull
        rw [hevict]
        exact .evicted hserves hfind hcapacity hfull hentries hold hlast

end PlanCache

end QueryPlans
