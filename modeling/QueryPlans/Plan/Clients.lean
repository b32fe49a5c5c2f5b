import QueryPlans.Plan.Engine

/-!
# Plan/Clients — many clients of one engine

A client prepares one request in three steps: it looks a plan up, compiles one of its own where
there is none, and publishes what it has compiled, going on with the entry that is returned.  Each
step is atomic and nothing is held between them, so the steps of clients that share an engine
interleave in any order; a schedule says whose turn it is.  For the record, all that was ever
published is written down.
-/

namespace QueryPlans

/-- How far a client has come with its request. -/
inductive Stage (P : Type) where
  | waiting
  /-- There was no plan, or none is kept; the client compiles one of its own. -/
  | missed (n : Normalized)
  /-- The client has compiled an entry and is going to publish it. -/
  | compiled (n : Normalized) (entry : PlanEntry P)
  | done (outcome : Except PrepareError (Prepared P))

/-- One who prepares a request, and how far that has come. -/
structure Client (P : Type) where
  request : Request
  stage : Stage P

/-- The first entry of all that were published for a shape. -/
def firstFor? {P : Type} (published : List (Shape × PlanEntry P)) (shape : Shape) :
    Option (PlanEntry P) :=
  (published.find? fun kept => kept.1.agrees shape).map Prod.snd

namespace Client

variable {P : Type}

/-- The entry with which a client has come to its end. -/
def entry? (c : Client P) : Option (PlanEntry P) :=
  match c.stage with
  | .done (.ok p) => some p.entry
  | _ => none

/-- What the next step of a client publishes. -/
def publication (c : Client P) : Option (Shape × PlanEntry P) :=
  match c.stage with
  | .compiled n entry => some (n.shape, entry)
  | _ => none

end Client

namespace Engine

variable {σ P : Type}

/-- Takes a request apart and looks for a plan of its shape, if such plans are kept. -/
def begin (e : Engine σ P) (r : Request) : Stage P × Engine σ P :=
  match e.normalize r with
  | (.error error, e) => (.done (.error (.lift error)), e)
  | (.ok n, e) =>
    if e.cache.serves n.shape then
      match e.lookUp n.shape with
      | (some entry, e) => (.done (.ok (e.prepared entry n.arguments true)), e)
      | (none, e) => (.missed n, e)
    else (.missed n, e)

/-- Compiles an entry, which is published if such entries are kept. -/
def compileOwn (e : Engine σ P) (n : Normalized) : Stage P × Engine σ P :=
  match e.compile n with
  | (.error error, e) => (.done (.error (.compile error)), e)
  | (.ok entry, e) =>
    if e.cache.serves n.shape then (.compiled n entry, e)
    else (.done (.ok (e.prepared entry n.arguments false)), e)

/-- Publishes an entry and goes on with the one that is kept. -/
def publish (e : Engine σ P) (n : Normalized) (entry : PlanEntry P) : Stage P × Engine σ P :=
  let (entry, e) := e.keep n.shape entry
  (.done (.ok (e.prepared entry n.arguments false)), e)

/-- **One step of a client.** -/
def advance (e : Engine σ P) (c : Client P) : Stage P × Engine σ P :=
  match c.stage with
  | .waiting => e.begin c.request
  | .missed n => e.compileOwn n
  | .compiled n entry => e.publish n entry
  | .done outcome => (.done outcome, e)

end Engine

/-- An engine with the clients that use it. -/
structure SharedEngine (σ P : Type) where
  engine : Engine σ P
  clients : List (Client P)
  /-- All that was published, in order, be it kept or not. -/
  published : List (Shape × PlanEntry P)

namespace SharedEngine

variable {σ P : Type}

/-- Before any client has done a step. -/
def start (engine : Engine σ P) (requests : List Request) : SharedEngine σ P :=
  ⟨engine, requests.map fun r => ⟨r, .waiting⟩, []⟩

/-- **The next step of one client.** -/
def step (s : SharedEngine σ P) (turn : Nat) : SharedEngine σ P :=
  match s.clients[turn]? with
  | none => s
  | some client =>
    let (stage, engine) := s.engine.advance client
    ⟨engine, s.clients.set turn { client with stage }, s.published ++ client.publication.toList⟩

/-- What becomes of the clients when they take their turns as a schedule says. -/
def run (s : SharedEngine σ P) (schedule : List Nat) : SharedEngine σ P := schedule.foldl step s

end SharedEngine

end QueryPlans
