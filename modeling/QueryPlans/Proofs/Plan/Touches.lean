import Mathlib.Data.List.TakeWhile
import QueryPlans.Proofs.Plan.Contents

/-!
# Proofs/Plan/Touches — what the calls of a cache have touched

A call touches a shape when it finds its value or puts one in.  The touches are read off the answers
and the counters alone and written down with the latest in front (`WatchedCache`); a clearing starts
the record again.  One call moves a value to the front, puts one in, with or without room, drops
all of them or leaves them as they are (`WatchedCache.watches`).

Of many touches each shape counts once (`Shape.distinct`), where it was touched last; so what stands
in front of a shape is what was touched since (`Shape.exists_distinct_eq`).
-/

namespace QueryPlans

variable {α : Type} {hash : ByteHash}

/-! ## Calls and touches -/

/-- A call on a cache. -/
inductive CacheCall (α : Type) where
  | get (shape : Shape)
  | insert (shape : Shape) (value : α)
  | clear

/-- The shape that a call is about; a clearing is about none. -/
def CacheCall.shape? : CacheCall α → Option Shape
  | .get shape | .insert shape _ => some shape
  | .clear => none

/-- A shape that a call has touched, with the value that it has published, if any. -/
structure Touch (α : Type) where
  shape : Shape
  published : Option α

/-- What a look-up touches: the shape, if it has a value. -/
def PlanCache.touchOfGet? (c : PlanCache α) (shape : Shape) : Option (Touch α) :=
  if (c.get shape).1.isSome then some ⟨shape, none⟩ else none

/-- What an insertion touches: the shape, if the insertion counts as one or as a lost race. -/
def PlanCache.touchOfInsert? (c : PlanCache α) (shape : Shape) (value : α) : Option (Touch α) :=
  let stats := (c.insert shape value).2.stats
  if stats.inserts ≠ c.stats.inserts then some ⟨shape, some value⟩
  else if stats.racesLost ≠ c.stats.racesLost then some ⟨shape, none⟩
  else none

/-- A cache, with all that was touched since it was last cleared, the latest in front. -/
structure WatchedCache (α : Type) where
  cache : PlanCache α
  touches : List (Touch α)

/-- Shapes without repetitions, each where it comes first. -/
def Shape.distinct : List Shape → List Shape
  | [] => []
  | shape :: rest => shape :: (distinct rest).eraseP fun other => other.agrees shape

namespace WatchedCache

/-- An empty cache that nothing has touched. -/
def ofSettings (settings : CacheSettings) : WatchedCache α := ⟨.ofSettings settings, []⟩

/-- The cache serves a call, whose touch is written down. -/
def step (w : WatchedCache α) : CacheCall α → WatchedCache α
  | .get shape => ⟨(w.cache.get shape).2, (w.cache.touchOfGet? shape).toList ++ w.touches⟩
  | .insert shape value =>
    ⟨(w.cache.insert shape value).2, (w.cache.touchOfInsert? shape value).toList ++ w.touches⟩
  | .clear => ⟨w.cache.clear, []⟩

/-- Several calls in order. -/
def run (w : WatchedCache α) (calls : List (CacheCall α)) : WatchedCache α := calls.foldl step w

/-- The shapes that were touched, the latest in front. -/
def touched (w : WatchedCache α) : List Shape := w.touches.map Touch.shape

/-- The shapes of one shard that were touched, the latest in front. -/
def recent (w : WatchedCache α) (index : Nat) : List Shape :=
  Shape.distinct (w.touched.filter fun shape => w.cache.shardOf shape == index)

/-- The other shapes of its shard that were touched since a shape was touched itself. -/
def rivals (w : WatchedCache α) (shape : Shape) : List Shape :=
  Shape.distinct ((w.touched.takeWhile fun other => !other.agrees shape).filter fun other =>
    w.cache.shardOf other == w.cache.shardOf shape)

/-- The value that was published last for a shape. -/
def lastPublished? (w : WatchedCache α) (shape : Shape) : Option α :=
  w.touches.findSome? fun touch => if touch.shape.agrees shape then touch.published else none

end WatchedCache

/-! ## What one call does -/

/-- **What one call does** to a cache and its touches. -/
inductive Watches (w : WatchedCache α) : CacheCall α → WatchedCache α → Prop
  | untouched {call : CacheCall α} {stats : CacheStats} :
    Watches w call { w with cache.stats := stats }
  | moved {call : CacheCall α} {shape : Shape} {stats : CacheStats}
    {before after : List (Shape × α)} {kept : Shape × α} (hcall : call.shape? = some shape)
    (hserves : w.cache.serves shape = true) (hentries : w.cache.entries = before ++ kept :: after)
    (hagrees : kept.1.agrees shape = true) :
    Watches w call ⟨⟨w.cache.settings, kept :: (before ++ after), stats⟩,
      ⟨shape, none⟩ :: w.touches⟩
  | added {shape : Shape} {value : α} {stats : CacheStats} (hserves : w.cache.serves shape = true)
    (habsent : w.cache.find? shape = none)
    (hroom : ∀ capacity ∈ w.cache.settings.shardCapacity?,
      (w.cache.shard (w.cache.shardOf shape)).length < capacity) :
    Watches w (.insert shape value) ⟨⟨w.cache.settings, (shape, value) :: w.cache.entries, stats⟩,
      ⟨shape, some value⟩ :: w.touches⟩
  | replaced {shape : Shape} {value : α} {stats : CacheStats} {capacity : Nat}
    {before after : List (Shape × α)} {old : Shape × α} (hserves : w.cache.serves shape = true)
    (habsent : w.cache.find? shape = none)
    (hcapacity : w.cache.settings.shardCapacity? = some capacity)
    (hfull : capacity ≤ (w.cache.shard (w.cache.shardOf shape)).length)
    (hentries : w.cache.entries = before ++ old :: after)
    (hold : w.cache.shardOf old.1 = w.cache.shardOf shape)
    (hlast : ∀ kept ∈ after, w.cache.shardOf kept.1 ≠ w.cache.shardOf shape) :
    Watches w (.insert shape value)
      ⟨⟨w.cache.settings, (shape, value) :: (before ++ after), stats⟩,
        ⟨shape, some value⟩ :: w.touches⟩
  | cleared : Watches w .clear ⟨w.cache.clear, []⟩

/-- **What one call does to a cache**, by its kind and by what is kept. -/
theorem WatchedCache.watches (w : WatchedCache α) (call : CacheCall α) :
    Watches w call (w.step call) := by
  cases call with
  | get shape =>
    have hgets := w.cache.gets shape
    rw [step, PlanCache.touchOfGet?]
    generalize w.cache.get shape = outcome at hgets ⊢
    cases hgets with
    | passed _ => exact .untouched
    | hit hserves hentries hagrees => exact .moved rfl hserves hentries hagrees
    | missed _ _ => exact .untouched
  | insert shape value =>
    have hinserts := w.cache.inserts shape value
    rw [step, PlanCache.touchOfInsert?]
    generalize w.cache.insert shape value = outcome at hinserts ⊢
    cases hinserts with
    | passed _ =>
      simp only [ne_eq, not_true_eq_false, if_false]
      exact .untouched
    | lost hserves hentries hagrees =>
      simp only [ne_eq, not_true_eq_false, if_false, Nat.succ_ne_self, not_false_eq_true, if_true]
      exact .moved rfl hserves hentries hagrees
    | published hserves habsent hroom =>
      simp only [ne_eq, Nat.succ_ne_self, not_false_eq_true, if_true]
      exact .added hserves habsent hroom
    | evicted hserves habsent hcapacity hfull hentries hold hlast =>
      simp only [ne_eq, Nat.succ_ne_self, not_false_eq_true, if_true]
      exact .replaced hserves habsent hcapacity hfull hentries hold hlast
  | clear => exact .cleared

/-! ## Each shape once -/

/-- Taking one thing out of more than needed leaves enough. -/
theorem take_eraseP_take {β : Type} (p : β → Bool) (l : List β) (n : Nat) :
    ((l.take (n + 1)).eraseP p).take n = (l.eraseP p).take n := by
  induction l generalizing n with
  | nil => simp
  | cons b l ih =>
    cases hb : p b with
    | true => simp [hb, List.take_take]
    | false =>
      cases n with
      | zero => simp
      | succ n => simpa [hb] using ih n

namespace Shape

variable {shape : Shape} {shapes : List Shape}

theorem distinct_subset (shapes : List Shape) : distinct shapes ⊆ shapes := by
  induction shapes with
  | nil => exact List.Subset.refl _
  | cons shape rest ih =>
    refine List.cons_subset_cons _ fun other hother => ih (List.mem_of_mem_eraseP hother)

/-- **A shape has in front of it what comes before it**, each once. -/
theorem exists_distinct_eq (hnormal : ∀ other ∈ shapes, other.IsNormal hash)
    (hcacheable : shape.isCacheable = true) (hmem : shape ∈ shapes) :
    ∃ after, distinct shapes =
      distinct (shapes.takeWhile fun other => !other.agrees shape) ++ shape :: after := by
  induction shapes with
  | nil => cases hmem
  | cons first rest ih =>
    have hfirst := hnormal first List.mem_cons_self
    have hshape := hnormal shape hmem
    have hself := hshape.agrees_self hcacheable
    cases hagrees : first.agrees shape with
    | true =>
      obtain rfl := ((hfirst.agrees_iff hshape).1 hagrees).2
      exact ⟨(distinct rest).eraseP fun other => other.agrees first, by simp [distinct, hself]⟩
    | false =>
      have hne : first ≠ shape := fun h => by simp [h, hself] at hagrees
      have hmem' : shape ∈ rest := (List.mem_cons.1 hmem).resolve_left hne.symm
      obtain ⟨after, hafter⟩ := ih (fun other hother => hnormal other (.tail _ hother)) hmem'
      have hstays : shape.agrees first = false := by
        rw [Bool.eq_false_iff]
        exact fun h => hne ((hshape.agrees_iff hfirst).1 h).2.symm
      rw [distinct, hafter, List.takeWhile_cons_of_pos (by simp [hagrees]), distinct]
      -- The copy of the first shape that is dropped stands before this one or behind it.
      by_cases hthere : ∃ other ∈ distinct (rest.takeWhile fun other => !other.agrees shape),
          other.agrees first = true
      · obtain ⟨other, hother, hother_agrees⟩ := hthere
        refine ⟨after, ?_⟩
        rw [List.eraseP_append_left (p := fun other => other.agrees first) hother_agrees _ hother]
        rfl
      · have hnone : ∀ other ∈ distinct (rest.takeWhile fun other => !other.agrees shape),
            ¬other.agrees first = true := fun other hother h => hthere ⟨other, hother, h⟩
        refine ⟨after.eraseP fun other => other.agrees first, ?_⟩
        rw [List.eraseP_append_right _ hnone, List.eraseP_of_forall_not hnone,
          List.eraseP_cons_of_neg (by simp [hstays])]
        rfl

/-- **How far in front a shape is** tells whether it is among the first. -/
theorem mem_take_distinct_iff (hnormal : ∀ other ∈ shapes, other.IsNormal hash)
    (hcacheable : shape.isCacheable = true) (hmem : shape ∈ shapes) (n : Nat) :
    shape ∈ (distinct shapes).take n ↔
      (distinct (shapes.takeWhile fun other => !other.agrees shape)).length < n := by
  obtain ⟨after, hafter⟩ := exists_distinct_eq hnormal hcacheable hmem
  have hself := (hnormal shape hmem).agrees_self hcacheable
  have hbefore : shape ∉ distinct (shapes.takeWhile fun other => !other.agrees shape) := by
    intro h
    have hdiffers := List.mem_takeWhile_imp (distinct_subset _ h)
    simp [hself] at hdiffers
  rw [hafter, List.take_append, List.mem_append]
  constructor
  · rintro (h | h)
    · exact absurd (List.mem_of_mem_take h) hbefore
    · by_contra hle
      rw [Nat.sub_eq_zero_of_le (Nat.le_of_not_lt hle)] at h
      cases h
  · intro hlt
    obtain ⟨k, hk⟩ := Nat.exists_eq_add_of_lt hlt
    refine .inr ?_
    rw [hk, Nat.add_assoc, Nat.add_sub_cancel_left]
    exact List.mem_cons_self

end Shape

end QueryPlans
