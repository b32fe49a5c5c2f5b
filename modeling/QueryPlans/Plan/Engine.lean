import QueryPlans.EventReader
import QueryPlans.Materializer
import QueryPlans.Plan.Basic
import QueryPlans.Plan.Cache

/-!
# Plan/Engine — requests prepared with plans that are compiled once a shape

Preparing takes a request apart, looks for a plan of its shape and compiles one where there is none.
What is prepared holds the plan entry and the request's own arguments, and hands out the consumers
of the plan's rows.  The compiler is a step on a state of its own, and the engine counts what was
done.
-/

namespace QueryPlans

/-- A compiler, with the state it keeps between shapes. -/
abbrev Compiler (σ P : Type) := σ → Shape → List Slot → Except CompileError (CompiledPlan P) × σ

/-- How often each phase succeeded. -/
structure Profile where
  normalized : Nat
  compiled : Nat
  /-- Root entries that were built. -/
  materialized : Nat
  /-- Rows that event readers placed. -/
  placed : Nat
deriving DecidableEq

/-- A profile before anything was done. -/
def Profile.zero : Profile := ⟨0, 0, 0, 0⟩

/-- What keeps a request from being prepared. -/
inductive PrepareError where
  | lift (error : LiftError)
  | compile (error : CompileError)
deriving DecidableEq

/-- The text of a fault, which is that of the part that failed. -/
def PrepareError.message : PrepareError → String
  | lift error => error.message
  | compile error => error.message

/-- A request that is ready to run. -/
structure Prepared (P : Type) where
  entry : PlanEntry P
  arguments : Arguments
  /-- Whether the plan had been kept from a former request. -/
  cacheHit : Bool
  maxGroupRows : Nat

namespace Prepared

variable {P : Type}

/-- The plan with the values of this request. -/
def bind (p : Prepared P) : Except BindError (BoundPlan P) := p.entry.bind p.arguments

/-- The layout of the plan's rows. -/
def layout (p : Prepared P) : Layout := p.entry.compiled.layout

/-- The page size of the request, if it has one that is no negative number. -/
def pageSize? (p : Prepared P) : Option Nat :=
  (p.arguments.pageSize? []).bind fun n => if n < 0 then none else some n.toInt.toNat

/-- The entries of the rows, in pages if the request has a page size. -/
def materializer (p : Prepared P) (cursor : Cursor) : Materializer :=
  let m := Materializer.ofCursor p.layout cursor p.maxGroupRows
  match p.pageSize? with
  | some size => m.withPageSize size
  | none => m

/-- The events of the rows; they are not cut into pages. -/
def eventReader (p : Prepared P) (cursor : Cursor) : EventReader := .ofCursor p.layout cursor

end Prepared

/-- An engine: its compiler, the plans that it keeps, and what it has counted. -/
structure Engine (σ P : Type) where
  compiler : Compiler σ P
  compilerState : σ
  cache : PlanCache (PlanEntry P)
  settings : Settings
  nextSerial : Nat
  profile : Profile

namespace Engine

variable {σ P : Type}

/-- An engine that has prepared nothing yet. -/
def ofSettings (compiler : Compiler σ P) (state : σ) (settings : Settings) : Engine σ P where
  compiler := compiler
  compilerState := state
  cache := .ofSettings settings.cache
  settings := settings
  nextSerial := 0
  profile := .zero

/-- An engine that has counted an event. -/
def record (e : Engine σ P) (change : Profile → Profile) : Engine σ P :=
  { e with profile := change e.profile }

/-- Takes a request apart. -/
def normalize (e : Engine σ P) (r : Request) : Except LiftError Normalized × Engine σ P :=
  match r.normalize with
  | .error error => (.error error, e)
  | .ok n => (.ok n, e.record fun p => { p with normalized := p.normalized + 1 })

/-- An entry for the plan of a request, told apart from all entries before it. -/
def newEntry (e : Engine σ P) (n : Normalized) (compiled : CompiledPlan P) :
    PlanEntry P × Engine σ P :=
  (⟨e.nextSerial, compiled, n.arguments.slots, n.shape.hash⟩,
    { e with nextSerial := e.nextSerial + 1 })

/-- Compiles a plan for a shape. -/
def compile (e : Engine σ P) (n : Normalized) :
    Except CompileError (PlanEntry P) × Engine σ P :=
  let (outcome, compilerState) := e.compiler e.compilerState n.shape n.arguments.slots
  let e := { e with compilerState }
  match outcome with
  | .error error => (.error error, e)
  | .ok compiled =>
    let (entry, e) := e.newEntry n compiled
    (.ok entry, e.record fun p => { p with compiled := p.compiled + 1 })

/-- What is handed out for a request. -/
def prepared (e : Engine σ P) (entry : PlanEntry P) (arguments : Arguments) (cacheHit : Bool) :
    Prepared P :=
  ⟨entry, arguments, cacheHit, e.settings.maxGroupRows⟩

/-- Looks a plan up, or compiles it and keeps it. -/
def obtain (e : Engine σ P) (n : Normalized) :
    Except CompileError (PlanEntry P × Bool) × Engine σ P :=
  if e.cache.serves n.shape then
    match e.cache.get n.shape with
    | (some entry, cache) => (.ok (entry, true), { e with cache })
    | (none, cache) =>
      match compile { e with cache } n with
      | (.error error, e) => (.error error, e)
      | (.ok entry, e) =>
        let (entry, cache) := e.cache.insert n.shape entry
        (.ok (entry, false), { e with cache })
  else
    let (entry, e) := e.compile n
    (entry.map (·, false), e)

/-- **Prepares a request.** -/
def prepare (e : Engine σ P) (r : Request) : Except PrepareError (Prepared P) × Engine σ P :=
  match e.normalize r with
  | (.error error, e) => (.error (.lift error), e)
  | (.ok n, e) =>
    match e.obtain n with
    | (.error error, e) => (.error (.compile error), e)
    | (.ok (entry, hit), e) => (.ok (e.prepared entry n.arguments hit), e)

/-- The value kept for a shape; the look-up counts. -/
def lookUp (e : Engine σ P) (shape : Shape) : Option (PlanEntry P) × Engine σ P :=
  let (found, cache) := e.cache.get shape
  (found, { e with cache })

/-- Keeps an entry for a shape and returns the one that is kept. -/
def keep (e : Engine σ P) (shape : Shape) (entry : PlanEntry P) : PlanEntry P × Engine σ P :=
  let (entry, cache) := e.cache.insert shape entry
  (entry, { e with cache })

/-- Drops every plan that was kept. -/
def clear (e : Engine σ P) : Engine σ P := { e with cache := e.cache.clear }

/-- Counts the entries that a materializer has built. -/
def recordEntries (e : Engine σ P) (n : Nat) : Engine σ P :=
  e.record fun p => { p with materialized := p.materialized + n }

/-- Counts the rows that an event reader has placed. -/
def recordRows (e : Engine σ P) (r : EventReader) : Engine σ P :=
  e.record fun p => { p with placed := p.placed + r.placed }

/-- The counts, which start again if told to. -/
def takeProfile (e : Engine σ P) (reset : Bool) : Profile × Engine σ P :=
  (e.profile, if reset then { e with profile := .zero } else e)

end Engine

end QueryPlans
