import QueryPlans.Settings.Basic
import QueryPlans.Toml.Reader

/-!
# Settings/Reader — settings from text

Settings stand in two tables, and what is left out has its default.  A table may also be an array of
its values in order.  A key that is no setting and a value of another type make a text no text of
settings, whatever the values; only then are the values checked.
-/

namespace QueryPlans

open Toml (Entries)

namespace Settings

/-- A count. -/
def natOf? : Toml → Option Nat
  | .integer n => if n < 0 then none else some n.toNat
  | _ => none

/-- The truth value of a setting. -/
def boolOf? : Toml → Option Bool
  | .boolean b => some b
  | _ => none

/-- The values of a table's keys, in the order of the names, or of an array from its front. -/
def fieldsOf? (names : List String) : Toml → Option (List (Option Toml))
  | .table _ entries =>
    if entries.all fun entry => names.contains entry.1 then
      some (names.map fun name => Toml.lookUp? name entries)
    else none
  | .array items => some ((List.range names.length).map fun i => items[i]?)
  | _ => none

/-- A value that may be left out. -/
def orDefault? {α : Type} (of? : Toml → Option α) (default : α) : Option Toml → Option α
  | none => some default
  | some t => of? t

/-- The settings of the cache; those that are missing have their defaults. -/
def cacheOf? (t : Toml) : Option CacheSettings := do
  let defaults := CacheSettings.default
  match ← fieldsOf? ["enabled", "shards", "capacity"] t with
  | [enabled, shards, capacity] =>
    some
      { enabled := ← orDefault? boolOf? defaults.enabled enabled
        shards := ← orDefault? natOf? defaults.shards shards
        capacity := ← orDefault? (fun t => (natOf? t).map some) defaults.capacity capacity }
  | _ => none

/-- How many rows a root entity may take, or the default. -/
def maxGroupRowsOf? (t : Toml) : Option Nat := do
  match ← fieldsOf? ["max_group_rows"] t with
  | [rows] => orDefault? natOf? Settings.default.maxGroupRows rows
  | _ => none

/-- The settings of a document, before their values are checked. -/
def ofEntries? (entries : Entries) : Option Settings := do
  match ← fieldsOf? ["cache", "demux"] (.table .header entries) with
  | [cache, demux] =>
    some
      { cache := ← orDefault? cacheOf? Settings.default.cache cache
        maxGroupRows := ← orDefault? maxGroupRowsOf? Settings.default.maxGroupRows demux }
  | _ => none

/-- **The settings of a text.** -/
def ofText (text : String) : Except SettingsError Settings :=
  match (Toml.ofText? text).bind ofEntries? with
  | none => .error .notSettings
  | some settings => settings.validate.map fun _ => settings

/-- The settings of a file's bytes, if there is a file. -/
def ofBytes? (bytes : Option (List UInt8)) : Except SettingsError Settings :=
  match bytes.bind fun bytes => String.fromUTF8? ⟨bytes.toArray⟩ with
  | none => .error .unreadable
  | some text => ofText text

end Settings

end QueryPlans
