import QueryPlans.Plan.Engine
import QueryPlans.Proofs.Plan.Contents

/-!
# Proofs/Plan/Preparing — how preparing a request ends

Preparing ends in one of four ways (`Engine.prepares`): the request cannot be taken apart, an entry
is found, there is none and compiling fails, or it succeeds and the entry is put in.  A cache that
does not serve a shape finds nothing and takes nothing in, so requests that go past it take the last
two ways as well (`Engine.obtain_eq`).

A compiler may count its calls (`Compiler.tallied`), which changes no answer
(`Engine.prepare_tallied`).
-/

namespace QueryPlans

variable {σ P : Type}

/-! ## Preparing one request -/

/-- **How preparing ends**, with the cache, the compiler's state and the next serial number that it
leaves behind. -/
inductive Prepares (e : Engine σ P) (r : Request) :
    Except PrepareError (Prepared P) → PlanCache (PlanEntry P) → σ → Nat → Prop
  | rejected {error : LiftError} (hn : r.normalize = .error error) :
    Prepares e r (.error (.lift error)) e.cache e.compilerState e.nextSerial
  | found {n : Normalized} {p : Prepared P} {cache : PlanCache (PlanEntry P)}
    (hn : r.normalize = .ok n) (hget : e.cache.get n.shape = (some p.entry, cache))
    (hhit : p.cacheHit = true) : Prepares e r (.ok p) cache e.compilerState e.nextSerial
  | failed {n : Normalized} {error : CompileError} {cache : PlanCache (PlanEntry P)} {state : σ}
    (hn : r.normalize = .ok n) (hget : e.cache.get n.shape = (none, cache))
    (hrun : e.compiler e.compilerState n.shape n.arguments.slots = (.error error, state)) :
    Prepares e r (.error (.compile error)) cache state e.nextSerial
  | compiled {n : Normalized} {plan : CompiledPlan P} {cache cache' : PlanCache (PlanEntry P)}
    {state : σ} {p : Prepared P} (hn : r.normalize = .ok n)
    (hget : e.cache.get n.shape = (none, cache))
    (hrun : e.compiler e.compilerState n.shape n.arguments.slots = (.ok plan, state))
    (hinsert : cache.insert n.shape (e.newEntry n plan).1 = (p.entry, cache'))
    (hhit : p.cacheHit = false) : Prepares e r (.ok p) cache' state (e.nextSerial + 1)

@[simp] theorem Engine.cache_compile (e : Engine σ P) (n : Normalized) :
    (e.compile n).2.cache = e.cache := by
  rw [compile]
  rcases e.compiler e.compilerState n.shape n.arguments.slots with ⟨_ | _, _⟩ <;> rfl

/-- A cache that does not serve a shape may as well be asked. -/
theorem Engine.obtain_eq (e : Engine σ P) (n : Normalized) :
    e.obtain n =
      match e.cache.get n.shape with
      | (some entry, cache) => (.ok (entry, true), { e with cache })
      | (none, cache) =>
        match compile { e with cache } n with
        | (.error error, e) => (.error error, e)
        | (.ok entry, e) =>
          let (entry, cache) := e.cache.insert n.shape entry
          (.ok (entry, false), { e with cache }) := by
  rw [obtain]
  split
  · rfl
  · next hserves =>
    have hget : e.cache.get n.shape = (none, e.cache) := by rw [PlanCache.get, if_neg hserves]
    have hcache := e.cache_compile n
    rw [hget]
    rcases hrun : e.compile n with ⟨_ | entry, e'⟩
    · simp only [hrun]
      rfl
    · rw [hrun] at hcache
      have hinsert : e'.cache.insert n.shape entry = (entry, e'.cache) := by
        rw [PlanCache.insert, if_neg (hcache.symm ▸ hserves)]
      simp only [hrun, hinsert]
      rfl

/-- **Preparing ends in one of four ways**, whether plans of the shape are kept or not. -/
theorem Engine.prepares (e : Engine σ P) (r : Request) :
    (e.prepare r).2.compiler = e.compiler ∧
      Prepares e r (e.prepare r).1 (e.prepare r).2.cache (e.prepare r).2.compilerState
        (e.prepare r).2.nextSerial := by
  rw [prepare, normalize]
  cases hn : r.normalize with
  | error error => exact ⟨rfl, .rejected hn⟩
  | ok n =>
    simp only [obtain_eq, record]
    rcases hget : e.cache.get n.shape with ⟨_ | entry, cache⟩
    · rcases hrun : e.compiler e.compilerState n.shape n.arguments.slots with ⟨error | plan, state⟩
      · simp only [compile, hrun]
        exact ⟨trivial, .failed hn hget hrun⟩
      · simp only [compile, hrun]
        exact ⟨rfl, .compiled hn hget hrun rfl rfl⟩
    · exact ⟨rfl, .found hn hget rfl⟩

namespace Prepares

variable {e : Engine σ P} {r : Request} {n : Normalized} {p : Prepared P} {state : σ}
  {outcome : Except PrepareError (Prepared P)} {cache' : PlanCache (PlanEntry P)} {serial : Nat}
  {inserted : List (Shape × PlanEntry P)}

/-- A hit is reported exactly if the cache had the shape. -/
theorem hit_iff (h : Prepares e r outcome cache' state serial) (hn : r.normalize = .ok n) :
    (∃ p, outcome = .ok p ∧ p.cacheHit = true) ↔ (e.cache.get n.shape).1.isSome = true := by
  cases h with
  | rejected hn' => cases hn.symm.trans hn'
  | found hn' hget hhit =>
    cases hn.symm.trans hn'
    simp [hget, hhit]
  | failed hn' hget _ =>
    cases hn.symm.trans hn'
    simp [hget]
  | compiled hn' hget _ _ hhit =>
    cases hn.symm.trans hn'
    simp [hget, hhit]

/-- What a hit shares is what the cache had. -/
theorem entry_of_hit (h : Prepares e r (.ok p) cache' state serial) (hn : r.normalize = .ok n)
    (hhit : p.cacheHit = true) : (e.cache.get n.shape).1 = some p.entry := by
  cases h with
  | found hn' hget _ =>
    cases hn.symm.trans hn'
    exact congrArg Prod.fst hget
  | compiled _ _ _ _ hhit' => cases hhit.symm.trans hhit'

/-- An entry that was not found has the next serial number. -/
theorem serial_eq (h : Prepares e r (.ok p) cache' state serial)
    (hfilled : e.cache.IsFilled (XXH64.hash 0) inserted) (hhit : p.cacheHit = false) :
    p.entry.serial = e.nextSerial := by
  cases h with
  | found _ _ hhit' => cases hhit.symm.trans hhit'
  | @compiled n plan _ _ _ _ hn hget _ hinsert _ =>
    have hinsert' := hfilled.insert_of_get (Shape.isNormal_of_normalizeWith hn) hget
      (e.newEntry n plan).1
    rw [(Prod.mk.inj (hinsert.symm.trans hinsert')).1]
    rfl

/-- A request whose plans are not kept goes past the cache. -/
theorem of_not_serves (h : Prepares e r outcome cache' state serial) (hn : r.normalize = .ok n)
    (hserves : e.cache.serves n.shape = false) :
    cache' = e.cache ∧ state = (e.compiler e.compilerState n.shape n.arguments.slots).2 := by
  have hpassed : e.cache.get n.shape = (none, e.cache) := by
    rw [PlanCache.get, if_neg (by simp [hserves])]
  cases h with
  | rejected hn' => cases hn.symm.trans hn'
  | found hn' hget _ =>
    cases hn.symm.trans hn'
    cases hpassed.symm.trans hget
  | failed hn' hget hrun =>
    cases hn.symm.trans hn'
    cases hpassed.symm.trans hget
    exact ⟨rfl, by rw [hrun]⟩
  | compiled hn' hget hrun hinsert _ =>
    cases hn.symm.trans hn'
    cases hpassed.symm.trans hget
    rw [PlanCache.insert, if_neg (by simp [hserves])] at hinsert
    exact ⟨(Prod.mk.inj hinsert).2.symm, by rw [hrun]⟩

/-- A failed compilation leaves the cache, and its miss is counted. -/
theorem of_failed {error : CompileError}
    (h : Prepares e r (.error (.compile error)) cache' state serial)
    (hfilled : e.cache.IsFilled (XXH64.hash 0) inserted) :
    cache' =
      if r.isCacheable then e.cache.count fun s => { s with misses := s.misses + 1 }
      else e.cache := by
  cases h with
  | failed hn hget _ =>
    have hcache := PlanCache.get_of_none (congrArg Prod.fst hget)
    rw [hget, hfilled.serves_eq, ← Request.isCacheable_eq hn] at hcache
    exact hcache

end Prepares

/-! ## Counting the calls of a compiler -/

/-- A compiler that counts how often it is called. -/
def Compiler.tallied (compiler : Compiler σ P) : Compiler (σ × Nat) P :=
  fun (state, calls) shape slots =>
    let (outcome, state) := compiler state shape slots
    (outcome, state, calls + 1)

/-- A tallied compiler counts each of its calls. -/
theorem Compiler.calls_of_tallied {compiler : Compiler σ P} {state state' : σ × Nat} {shape : Shape}
    {slots : List Slot} {outcome : Except CompileError (CompiledPlan P)}
    (hrun : compiler.tallied state shape slots = (outcome, state')) : state'.2 = state.2 + 1 :=
  (congrArg (fun run => run.2.2) hrun).symm

/-- The same engine with a compiler that counts on from some number. -/
def Engine.tallied (e : Engine σ P) (calls : Nat) : Engine (σ × Nat) P :=
  { e with
    compiler := e.compiler.tallied
    compilerState := (e.compilerState, calls) }

/-- Counting calls does not change what is compiled. -/
theorem Engine.compile_tallied (e : Engine σ P) (calls : Nat) (n : Normalized) :
    (e.tallied calls).compile n = ((e.compile n).1, (e.compile n).2.tallied (calls + 1)) := by
  have hrun : (e.tallied calls).compiler (e.tallied calls).compilerState n.shape
      n.arguments.slots =
        ((e.compiler e.compilerState n.shape n.arguments.slots).1,
          (e.compiler e.compilerState n.shape n.arguments.slots).2, calls + 1) := rfl
  rw [compile, compile, hrun]
  rcases e.compiler e.compilerState n.shape n.arguments.slots with ⟨_ | _, _⟩ <;> rfl

/-- Nor does it change what is obtained. -/
theorem Engine.obtain_tallied (e : Engine σ P) (calls : Nat) (n : Normalized) :
    ∃ calls', (e.tallied calls).obtain n = ((e.obtain n).1, (e.obtain n).2.tallied calls') := by
  have hcache : (e.tallied calls).cache = e.cache := rfl
  rw [obtain, obtain, hcache]
  cases e.cache.serves n.shape with
  | false =>
    refine ⟨calls + 1, ?_⟩
    rw [compile_tallied]
    rfl
  | true =>
    rcases e.cache.get n.shape with ⟨_ | entry, cache⟩
    · refine ⟨calls + 1, ?_⟩
      have hwith : { e.tallied calls with cache } = Engine.tallied { e with cache } calls := rfl
      simp only [if_true, hwith, compile_tallied]
      rcases Engine.compile { e with cache } n with ⟨_ | _, _⟩ <;> rfl
    · exact ⟨calls, rfl⟩

/-- **Counting the calls of a compiler changes no answer.** -/
theorem Engine.prepare_tallied (e : Engine σ P) (calls : Nat) (r : Request) :
    ∃ calls', (e.tallied calls).prepare r =
      ((e.prepare r).1, (e.prepare r).2.tallied calls') := by
  rw [prepare, prepare, normalize, normalize]
  cases r.normalize with
  | error error => exact ⟨calls, rfl⟩
  | ok n =>
    obtain ⟨calls', hobtain⟩ :=
      (e.record fun p => { p with normalized := p.normalized + 1 }).obtain_tallied calls n
    have hrecord : ((e.tallied calls).record fun p => { p with normalized := p.normalized + 1 }) =
      (e.record fun p => { p with normalized := p.normalized + 1 }).tallied calls := rfl
    refine ⟨calls', ?_⟩
    simp only [hrecord, hobtain]
    rcases (e.record fun p => { p with normalized := p.normalized + 1 }).obtain n with
      ⟨_ | ⟨_, _⟩, _⟩ <;> rfl

end QueryPlans
