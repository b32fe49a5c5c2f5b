/-!
# Toml/Basic — documents as trees of tables

A document is a table.  Each table remembers how it came about, since that decides whether a later
line may add to it: a header defines its table once, dotted keys add only to tables that dotted keys
made, and an inline table is complete where it stands.
-/

namespace QueryPlans

/-- How a table came about. -/
inductive Toml.TableKind where
  /-- By its own header. -/
  | header
  /-- On the way to another header. -/
  | implied
  /-- On the way of a dotted key. -/
  | dotted
  | inline
deriving DecidableEq

/-- A value of a configuration; scalars that no setting takes are told apart no further. -/
inductive Toml where
  | boolean (value : Bool)
  | integer (value : Int)
  /-- A scalar of another type. -/
  | other
  | array (items : List Toml)
  | table (kind : Toml.TableKind) (entries : List (String × Toml))

namespace Toml

/-- What a table has so far, in the order in which it was written. -/
abbrev Entries := List (String × Toml)

/-- The value of a key. -/
def lookUp? (key : String) (entries : Entries) : Option Toml :=
  (entries.find? fun entry => entry.1 == key).map Prod.snd

/-- Entries with another value for a key. -/
def replace (key : String) (value : Toml) (entries : Entries) : Entries :=
  entries.map fun entry => if entry.1 == key then (key, value) else entry

/-- Adds a value under a dotted key, whose last part has to be new.  The last table on the way has
to be a dotted one, and those before it dotted or implied. -/
def putValue (value : Toml) : List String → Entries → Option Entries
  | [], _ => none
  | [key], entries =>
    match lookUp? key entries with
    | none => some (entries ++ [(key, value)])
    | some _ => none
  | key :: rest, entries =>
    match lookUp? key entries with
    | none => (putValue value rest []).map fun inner => entries ++ [(key, .table .dotted inner)]
    | some (.table kind inner) =>
      if kind == .dotted || (kind == .implied && 1 < rest.length) then
        (putValue value rest inner).map fun inner => replace key (.table kind inner) entries
      else none
    | some _ => none

/-- Adds the table of a header. -/
def putHeader : List String → Entries → Option Entries
  | [], _ => none
  | [key], entries =>
    match lookUp? key entries with
    | none => some (entries ++ [(key, .table .header [])])
    | some (.table .implied inner) => some (replace key (.table .header inner) entries)
    | some _ => none
  | key :: rest, entries =>
    match lookUp? key entries with
    | none => (putHeader rest []).map fun inner => entries ++ [(key, .table .implied inner)]
    | some (.table .inline _) => none
    | some (.table kind inner) =>
      (putHeader rest inner).map fun inner => replace key (.table kind inner) entries
    | some _ => none

/-- Changes the entries of the table at a path. -/
def updateAt (change : Entries → Option Entries) : List String → Entries → Option Entries
  | [], entries => change entries
  | key :: rest, entries =>
    match lookUp? key entries with
    | some (.table kind inner) =>
      (updateAt change rest inner).map fun inner => replace key (.table kind inner) entries
    | _ => none

end Toml

end QueryPlans
