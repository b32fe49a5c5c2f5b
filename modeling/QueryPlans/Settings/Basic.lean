/-!
# Settings/Basic — how much is kept and held

Plans are kept in shards, each bounded by its share of the capacity; entities are built from groups
of rows, each bounded by a number of rows.  Settings in use are not checked again: `validate` is for
those that come from outside.
-/

namespace QueryPlans

/-- How much the cache of plans keeps, and in how many shards. -/
structure CacheSettings where
  /-- Whether plans are kept at all. -/
  enabled : Bool
  shards : Nat
  /-- How many plans are kept; without it there is no bound. -/
  capacity : Option Nat
deriving DecidableEq

/-- The settings of an engine. -/
structure Settings where
  cache : CacheSettings
  /-- How many rows one root entity may take. -/
  maxGroupRows : Nat
deriving DecidableEq

/-- What keeps settings from being used. -/
inductive SettingsError where
  | noShards
  | noCapacity
  | noGroupRows
  /-- The text is not TOML of these settings. -/
  | notSettings
  /-- There is no text to read. -/
  | unreadable
deriving DecidableEq

/-- The text of a fault. -/
def SettingsError.message : SettingsError → String
  | noShards => "invalid configuration: cache.shards must be at least 1"
  | noCapacity => "invalid configuration: cache.capacity must be at least 1"
  | noGroupRows => "invalid configuration: demux.max_group_rows must be at least 1"
  | notSettings => "failed to parse configuration"
  | unreadable => "failed to read configuration"

/-- Sixteen shards without a bound. -/
def CacheSettings.default : CacheSettings := ⟨true, 16, none⟩

/-- The settings where nothing else is said. -/
def Settings.default : Settings := ⟨.default, 65536⟩

/-- **Whether settings make sense**; the first one that does not is reported. -/
def Settings.validate (s : Settings) : Except SettingsError Unit :=
  if s.cache.shards = 0 then .error .noShards
  else if s.cache.capacity = some 0 then .error .noCapacity
  else if s.maxGroupRows = 0 then .error .noGroupRows
  else .ok ()

namespace CacheSettings

/-- There is always a shard. -/
def shardCount (s : CacheSettings) : Nat := max 1 s.shards

/-- How many plans a shard keeps: its share of the capacity, and at least one. -/
def shardCapacity? (s : CacheSettings) : Option Nat :=
  s.capacity.map fun capacity => max 1 (capacity / s.shardCount)

end CacheSettings

end QueryPlans
