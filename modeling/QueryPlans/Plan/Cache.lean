import QueryPlans.Settings.Basic
import QueryPlans.Shape.Basic

/-!
# Plan/Cache — what is kept by shape

A cache keeps values by shape, the one used last in front.  The hash of a shape says which shard it
belongs to; a shard that grows beyond its capacity loses the value that was used longest ago.  Two
values of one shape are never kept: the one that came first stays.  A cache that is not enabled and
a shape that is not cacheable leave everything as it is.
-/

namespace QueryPlans

/-- How often what has happened to a cache. -/
structure CacheStats where
  hits : Nat
  misses : Nat
  inserts : Nat
  /-- Inserts that found a value of their shape. -/
  racesLost : Nat
  evictions : Nat
deriving DecidableEq

/-- What is kept by shape. -/
structure PlanCache (α : Type) where
  settings : CacheSettings
  /-- The kept values, the one used last in front. -/
  entries : List (Shape × α)
  stats : CacheStats

namespace PlanCache

variable {α : Type}

/-- A cache that keeps nothing yet. -/
def ofSettings (settings : CacheSettings) : PlanCache α := ⟨settings, [], ⟨0, 0, 0, 0, 0⟩⟩

/-- Whether anything is ever kept. -/
def isEnabled (c : PlanCache α) : Bool := c.settings.enabled

/-- How many values are kept. -/
def size (c : PlanCache α) : Nat := c.entries.length

/-- Whether no value is kept. -/
def isEmpty (c : PlanCache α) : Bool := c.entries.isEmpty

/-- Whether values of the shape are kept. -/
def serves (c : PlanCache α) (shape : Shape) : Bool := c.isEnabled && shape.isCacheable

/-- The shard of a shape. -/
def shardOf (c : PlanCache α) (shape : Shape) : Nat := shape.hash.toNat % c.settings.shardCount

/-- The kept values of one shard. -/
def shard (c : PlanCache α) (index : Nat) : List (Shape × α) :=
  c.entries.filter fun kept => c.shardOf kept.1 == index

/-- The value that is kept for a shape, with the shape that it came with. -/
def find? (c : PlanCache α) (shape : Shape) : Option (Shape × α) :=
  c.entries.find? fun kept => kept.1.agrees shape

/-- Puts the value of a shape in front. -/
def touch (c : PlanCache α) (shape : Shape) : PlanCache α :=
  match c.find? shape with
  | none => c
  | some kept =>
    { c with entries := kept :: c.entries.eraseP fun kept => kept.1.agrees shape }

/-- A cache that has counted an event. -/
def count (c : PlanCache α) (change : CacheStats → CacheStats) : PlanCache α :=
  { c with stats := change c.stats }

/-- **The value kept for a shape.** -/
def get (c : PlanCache α) (shape : Shape) : Option α × PlanCache α :=
  if c.serves shape then
    match c.find? shape with
    | some kept =>
      (some kept.2, (c.touch shape).count fun s => { s with hits := s.hits + 1 })
    | none => (none, c.count fun s => { s with misses := s.misses + 1 })
  else (none, c)

/-- Drops what was used longest ago from a shard that has grown beyond its capacity. -/
def evict (c : PlanCache α) (index : Nat) : PlanCache α :=
  match c.settings.shardCapacity? with
  | none => c
  | some capacity =>
    if capacity < (c.shard index).length then
      let rest := (c.entries.reverse.eraseP fun kept => c.shardOf kept.1 == index).reverse
      { c with entries := rest }.count fun s => { s with evictions := s.evictions + 1 }
    else c

/-- **Keeps a value for a shape** and returns the value that is kept for it from now on. -/
def insert (c : PlanCache α) (shape : Shape) (value : α) : α × PlanCache α :=
  if c.serves shape then
    match c.find? shape with
    | some kept =>
      (kept.2, (c.touch shape).count fun s => { s with racesLost := s.racesLost + 1 })
    | none =>
      let c := { c with entries := (shape, value) :: c.entries }
      (value, (c.evict (c.shardOf shape)).count fun s => { s with inserts := s.inserts + 1 })
  else (value, c)

/-- Drops everything; the counters stay. -/
def clear (c : PlanCache α) : PlanCache α := { c with entries := [] }

end PlanCache

end QueryPlans
