import QueryPlans.Plan.Engine
import QueryPlans.Proofs.Plan.Cache
import QueryPlans.Proofs.Shape.Equality

/-!
# Proofs/Plan/Transparency — keeping plans changes no answer

Between calls an engine with a pure compiler is faithful: every entry in its cache is what some
request of that very shape compiles to (`Engine.IsFaithful`).  Shapes that the cache takes for equal
are equal, and so are the slots of their requests (`Request.eq_of_agrees`); hence a hit hands out
what compiling would have given, and the answer of a faithful engine is determined by the request
alone (`Engine.PreparesTo.answer_eq`).  Engines that keep nothing are faithful too.
-/

namespace QueryPlans

open Piece

variable {σ P : Type}

/-- The arguments of a request are its own literals, in the order of visits. -/
theorem Request.map_entries_of_normalizeWith {hash : ByteHash} {r : Request} {n : Normalized}
    (h : r.normalizeWith hash = .ok n) :
    n.arguments.entries.map (fun a => (a.slot.origin, a.value)) = r.literals := by
  obtain ⟨s, hs, hargs, -⟩ := lifted_of_normalizeWith h
  rw [hargs, hs.arguments]
  exact Arguments.map_entries_pushAll .empty r.literals

/-! ## Answers -/

/-- A compiler whose outcomes do not depend on its state. -/
def Compiler.IsPure (compiler : Compiler σ P) : Prop :=
  ∀ s s' shape slots, (compiler s shape slots).1 = (compiler s' shape slots).1

/-- What a prepared request amounts to, wherever its plan came from. -/
structure Answer (P : Type) where
  compiled : CompiledPlan P
  slots : List Slot
  shapeHash : UInt64
  arguments : Arguments
  pageSize : Option Nat
  maxGroupRows : Nat

/-- What a caller sees of a prepared query, the cache apart. -/
def Prepared.answer (p : Prepared P) : Answer P where
  compiled := p.entry.compiled
  slots := p.entry.slots
  shapeHash := p.entry.shapeHash
  arguments := p.arguments
  pageSize := p.pageSize?
  maxGroupRows := p.maxGroupRows

/-- An entry is what one request compiles to. -/
structure PlanEntry.IsFor (compile : Shape → List Slot → Except CompileError (CompiledPlan P))
    (n : Normalized) (entry : PlanEntry P) : Prop where
  compiled : compile n.shape n.arguments.slots = .ok entry.compiled
  slots : entry.slots = n.arguments.slots
  shapeHash : entry.shapeHash = n.shape.hash

/-- An entry is what some request of the shape compiles to. -/
def PlanEntry.IsKeptFor (compile : Shape → List Slot → Except CompileError (CompiledPlan P))
    (shape : Shape) (entry : PlanEntry P) : Prop :=
  ∃ r n, Request.normalize r = .ok n ∧ n.shape = shape ∧ entry.IsFor compile n

/-- An outcome is what one request compiles to. -/
inductive CompilesTo (compile : Shape → List Slot → Except CompileError (CompiledPlan P))
    (n : Normalized) : Except CompileError (PlanEntry P) → Prop
  | error {error : CompileError} (h : compile n.shape n.arguments.slots = .error error) :
    CompilesTo compile n (.error error)
  | ok {entry : PlanEntry P} (h : entry.IsFor compile n) : CompilesTo compile n (.ok entry)

namespace Engine

/-! ## Calls -/

/-- A call on an engine from outside. -/
inductive Call where
  | prepare (r : Request)
  | lookUp (shape : Shape)
  | clear

/-- The engine after a call. -/
def after (e : Engine σ P) : Call → Engine σ P
  | .prepare r => (e.prepare r).2
  | .lookUp shape => (e.lookUp shape).2
  | .clear => e.clear

/-- The engine after several calls. -/
def run (e : Engine σ P) (calls : List Call) : Engine σ P := calls.foldl after e

/-! ## Faithful engines -/

/-- **An engine between calls**: what it keeps is what its compiler makes of requests. -/
structure IsFaithful (compile : Shape → List Slot → Except CompileError (CompiledPlan P))
    (maxGroupRows : Nat) (e : Engine σ P) : Prop where
  compiler : ∀ s shape slots, (e.compiler s shape slots).1 = compile shape slots
  maxGroupRows : e.settings.maxGroupRows = maxGroupRows
  keeps : e.cache.Keeps (PlanEntry.IsKeptFor compile)

/-- An engine starts out faithful, whether it will keep plans or not. -/
theorem isFaithful_ofSettings {compiler : Compiler σ P} (hpure : compiler.IsPure)
    (state base : σ) (settings : Settings) :
    (ofSettings compiler state settings).IsFaithful
      (fun shape slots => (compiler base shape slots).1) settings.maxGroupRows where
  compiler s shape slots := hpure s base shape slots
  maxGroupRows := rfl
  keeps := .ofSettings settings.cache

namespace IsFaithful

variable {compile : Shape → List Slot → Except CompileError (CompiledPlan P)}
  {maxGroupRows : Nat} {e : Engine σ P} {r : Request} {n : Normalized}

/-- Counting does not matter for what is prepared. -/
theorem record (h : e.IsFaithful compile maxGroupRows) (change : Profile → Profile) :
    (e.record change).IsFaithful compile maxGroupRows := ⟨h.compiler, h.maxGroupRows, h.keeps⟩

theorem withCache (h : e.IsFaithful compile maxGroupRows) {cache : PlanCache (PlanEntry P)}
    (hkeeps : cache.Keeps (PlanEntry.IsKeptFor compile)) :
    IsFaithful compile maxGroupRows { e with cache } := ⟨h.compiler, h.maxGroupRows, hkeeps⟩

/-- What is kept for a shape that agrees serves the request as well as its own entry. -/
theorem isFor_of_agrees (hn : r.normalize = .ok n) {shape : Shape} {entry : PlanEntry P}
    (hagrees : shape.agrees n.shape = true) (hentry : entry.IsKeptFor compile shape) :
    entry.IsFor compile n := by
  obtain ⟨r', n', hn', rfl, hfor⟩ := hentry
  obtain ⟨hshape, hslots⟩ := Request.eq_of_agrees hn' hn hagrees
  exact ⟨hshape ▸ hslots ▸ hfor.compiled, hslots ▸ hfor.slots, hshape ▸ hfor.shapeHash⟩

/-- Compiling gives what the compiler makes of the shape, and keeps nothing. -/
theorem compile_spec (h : e.IsFaithful compile maxGroupRows) (n : Normalized) :
    (e.compile n).2.IsFaithful compile maxGroupRows ∧ CompilesTo compile n (e.compile n).1 := by
  have houtcome := h.compiler e.compilerState n.shape n.arguments.slots
  rw [Engine.compile]
  rcases hrun : e.compiler e.compilerState n.shape n.arguments.slots with ⟨error | compiled, state⟩
  · rw [hrun] at houtcome
    exact ⟨⟨h.compiler, h.maxGroupRows, h.keeps⟩, .error houtcome.symm⟩
  · rw [hrun] at houtcome
    exact ⟨⟨h.compiler, h.maxGroupRows, h.keeps⟩, .ok ⟨houtcome.symm, rfl, rfl⟩⟩

/-- **A plan that is obtained is the one the request compiles to**, found or not. -/
theorem obtain_spec (h : e.IsFaithful compile maxGroupRows) (hn : r.normalize = .ok n) :
    (e.obtain n).2.IsFaithful compile maxGroupRows ∧
      CompilesTo compile n ((e.obtain n).1.map Prod.fst) := by
  rw [Engine.obtain]
  split
  · have hkeeps := h.keeps.get n.shape
    cases hget : e.cache.get n.shape with
    | mk found cache =>
      rw [hget] at hkeeps
      cases found with
      | some entry =>
        obtain ⟨shape, hagrees, hkept⟩ := h.keeps.of_get (congrArg Prod.fst hget)
        exact ⟨h.withCache hkeeps, .ok (isFor_of_agrees hn hagrees hkept)⟩
      | none =>
        have hcompile := (h.withCache hkeeps).compile_spec n
        rcases hrun : Engine.compile { e with cache } n with ⟨error | entry, e'⟩
        · rw [hrun] at hcompile
          simp only [hrun]
          exact hcompile
        · rw [hrun] at hcompile
          simp only [hrun]
          obtain ⟨hfaithful, hfor⟩ := hcompile
          cases hfor with
          | ok hfor =>
            refine ⟨hfaithful.withCache (hfaithful.keeps.insert ⟨r, n, hn, rfl, hfor⟩), ?_⟩
            -- What the insertion hands out is this very entry, or one that was there before.
            rcases hfaithful.keeps.of_insert n.shape entry with hown | ⟨shape, hagrees, hkept⟩
            · rw [← hown] at hfor
              exact .ok hfor
            · exact .ok (isFor_of_agrees hn hagrees hkept)
  · have hcompile := h.compile_spec n
    rcases hrun : e.compile n with ⟨error | entry, e'⟩
    · rw [hrun] at hcompile
      exact hcompile
    · rw [hrun] at hcompile
      exact hcompile

end IsFaithful

/-! ## Preparing -/

/-- **An outcome of preparing a request**, as far as the compiler and the request decide it. -/
inductive PreparesTo (compile : Shape → List Slot → Except CompileError (CompiledPlan P))
    (maxGroupRows : Nat) (r : Request) : Except PrepareError (Prepared P) → Prop
  | lift {error : LiftError} (hn : r.normalize = .error error) :
    PreparesTo compile maxGroupRows r (.error (.lift error))
  | compile {n : Normalized} {error : CompileError} (hn : r.normalize = .ok n)
    (hcompile : compile n.shape n.arguments.slots = .error error) :
    PreparesTo compile maxGroupRows r (.error (.compile error))
  | ok {n : Normalized} {p : Prepared P} (hn : r.normalize = .ok n)
    (hentry : p.entry.IsFor compile n) (harguments : p.arguments = n.arguments)
    (hmax : p.maxGroupRows = maxGroupRows) : PreparesTo compile maxGroupRows r (.ok p)

section

variable {compile : Shape → List Slot → Except CompileError (CompiledPlan P)}
  {maxGroupRows : Nat} {e : Engine σ P} {r : Request}

/-- Outcomes of preparing one request answer the same. -/
theorem PreparesTo.answer_eq {o o' : Except PrepareError (Prepared P)}
    (h : PreparesTo compile maxGroupRows r o) (h' : PreparesTo compile maxGroupRows r o') :
    o.map Prepared.answer = o'.map Prepared.answer := by
  -- The outcome is told by the request and the pure compiler: unlike cases contradict each other.
  cases h with
  | lift hn =>
    cases h' with
    | lift hn' => cases hn.symm.trans hn'; rfl
    | compile hn' _ => cases hn.symm.trans hn'
    | ok hn' => cases hn.symm.trans hn'
  | compile hn hcompile =>
    cases h' with
    | lift hn' => cases hn.symm.trans hn'
    | compile hn' hcompile' =>
      cases hn.symm.trans hn'
      cases hcompile.symm.trans hcompile'
      rfl
    | ok hn' hentry' =>
      cases hn.symm.trans hn'
      cases hcompile.symm.trans hentry'.compiled
  | ok hn hentry harguments hmax =>
    cases h' with
    | lift hn' => cases hn.symm.trans hn'
    | compile hn' hcompile' =>
      cases hn.symm.trans hn'
      cases hentry.compiled.symm.trans hcompile'
    | ok hn' hentry' harguments' hmax' =>
      cases hn.symm.trans hn'
      have hcompiled := Except.ok.inj (hentry.compiled.symm.trans hentry'.compiled)
      simp only [Except.map, Prepared.answer, Prepared.pageSize?, hcompiled, hentry.slots,
        hentry'.slots, hentry.shapeHash, hentry'.shapeHash, harguments, harguments', hmax, hmax']

/-- **A request is prepared as it would be alone**, and leaves the engine as faithful as it was. -/
theorem IsFaithful.prepare_spec (h : e.IsFaithful compile maxGroupRows) (r : Request) :
    (e.prepare r).2.IsFaithful compile maxGroupRows ∧
      PreparesTo compile maxGroupRows r (e.prepare r).1 := by
  rw [Engine.prepare, Engine.normalize]
  cases hn : r.normalize with
  | error error => exact ⟨h, .lift hn⟩
  | ok n =>
    have hrecorded := h.record fun p => { p with normalized := p.normalized + 1 }
    have hobtain := hrecorded.obtain_spec hn
    rcases hrun : (e.record fun p => { p with normalized := p.normalized + 1 }).obtain n with
      ⟨error | ⟨entry, hit⟩, e'⟩
    · rw [hrun] at hobtain
      simp only [hrun]
      obtain ⟨hfaithful, hcompiles⟩ := hobtain
      cases hcompiles with
      | error hcompile => exact ⟨hfaithful, .compile hn hcompile⟩
    · rw [hrun] at hobtain
      simp only [hrun]
      obtain ⟨hfaithful, hcompiles⟩ := hobtain
      cases hcompiles with
      | ok hentry => exact ⟨hfaithful, .ok hn hentry rfl hfaithful.maxGroupRows⟩

/-- **No call makes an engine unfaithful.** -/
theorem IsFaithful.after (h : e.IsFaithful compile maxGroupRows) (call : Call) :
    (e.after call).IsFaithful compile maxGroupRows := by
  cases call with
  | prepare r => exact (h.prepare_spec r).1
  | lookUp shape => exact h.withCache (h.keeps.get shape)
  | clear => exact h.withCache h.keeps.clear

/-- An engine is faithful behind all that was asked of it. -/
theorem IsFaithful.run (h : e.IsFaithful compile maxGroupRows) (calls : List Call) :
    (e.run calls).IsFaithful compile maxGroupRows := by
  induction calls generalizing e with
  | nil => exact h
  | cons call rest ih => exact ih (h.after call)

/-- **What was prepared binds the literals of its own request**, each to the slot it was lifted
into. -/
theorem PreparesTo.bind_eq_ok {p : Prepared P} (h : PreparesTo compile maxGroupRows r (.ok p)) :
    ∃ n bound, r.normalize = .ok n ∧
      n.arguments.entries.map (fun a => (a.slot.origin, a.value)) = r.literals ∧
      p.bind = .ok bound ∧
      bound.values = n.arguments.entries.map (fun a => (a.slot.name, some a.value)) ∧
      fill bound.value? n.shape.request = r := by
  cases h with
  | @ok n _ hn hentry harguments _ =>
    have hnumbered := Request.isNumbered_of_normalizeWith hn
    refine ⟨n, ⟨p.entry, n.arguments⟩, hn, Request.map_entries_of_normalizeWith hn, ?_, ?_,
      Request.fill_of_normalizeWith hn⟩
    · rw [Prepared.bind, harguments]
      exact hnumbered.bind_eq_ok hentry.slots
    · rw [BoundPlan.values, hentry.slots, Arguments.slots, List.map_map]
      refine List.map_congr_left fun a ha => ?_
      exact congrArg (Prod.mk a.slot.name) (hnumbered.get?_name ha)

end

end Engine

/-- The settings of an engine that keeps no plan. -/
def Settings.uncached (settings : Settings) : Settings :=
  { settings with cache := { settings.cache with enabled := false } }

/-- **Keeping plans changes no answer**: after any calls, an engine with a pure compiler answers a
request as a new one without a cache does, and what it prepares binds every slot to the literal of
this very request. -/
theorem prepare_eq_uncached (compiler : Compiler σ P) (hpure : compiler.IsPure)
    (state state' : σ) (settings : Settings) (calls : List Engine.Call) (r : Request) :
    let engine := (Engine.ofSettings compiler state settings).run calls
    let fresh := Engine.ofSettings compiler state' settings.uncached
    (engine.prepare r).1.map Prepared.answer = (fresh.prepare r).1.map Prepared.answer ∧
    ∀ p, (engine.prepare r).1 = .ok p →
      ∃ n bound, r.normalize = .ok n ∧
        n.arguments.entries.map (fun a => (a.slot.origin, a.value)) = r.literals ∧
        p.bind = .ok bound ∧
        bound.values = n.arguments.entries.map (fun a => (a.slot.name, some a.value)) ∧
        fill bound.value? n.shape.request = r := by
  intro engine fresh
  have hengine := (Engine.isFaithful_ofSettings hpure state state settings).run calls
  have hfresh := Engine.isFaithful_ofSettings hpure state' state settings.uncached
  have hprepared := (hengine.prepare_spec r).2
  refine ⟨hprepared.answer_eq (hfresh.prepare_spec r).2, fun p hp => ?_⟩
  rw [hp] at hprepared
  exact hprepared.bind_eq_ok

/-- Plans that are the slots they were compiled for; the compiler counts its calls. -/
def Compiler.counting : Compiler Nat (List Slot) := fun calls _ slots =>
  (.ok ⟨slots, none, ⟨.mk ⟨0, .root, [], [], [], [], none, 0⟩ [], [], 0⟩⟩, calls + 1)

/-- Behind a request of its shape, one for another age is a hit, and is answered as without a cache.
-/
theorem prepare_eq_uncached_above :
    let engine := (Engine.ofSettings .counting 0 ⟨⟨true, 0, some 1⟩, 1⟩).run
      [.clear, .prepare (.above 18)]
    let fresh := Engine.ofSettings .counting 7 ⟨⟨false, 0, some 1⟩, 1⟩
    (engine.prepare (.above 65)).1.map Prepared.cacheHit = .ok true ∧
    (engine.prepare (.above 65)).1.map Prepared.answer =
      (fresh.prepare (.above 65)).1.map Prepared.answer ∧
    ∃ p bound, (engine.prepare (.above 65)).1 = .ok p ∧ p.bind = .ok bound ∧
      bound.values = [("__p0", some (.int 65))] := by
  intro engine fresh
  have hpure : Compiler.counting.IsPure := fun _ _ _ _ => rfl
  have h := prepare_eq_uncached .counting hpure 0 7 ⟨⟨true, 0, some 1⟩, 1⟩
    [.clear, .prepare (.above 18)] (.above 65)
  have hhit : (engine.prepare (.above 65)).1.map Prepared.cacheHit = .ok true := by decide +kernel
  refine ⟨hhit, h.1, ?_⟩
  cases hprepared : (engine.prepare (.above 65)).1 with
  | error error =>
    rw [hprepared] at hhit
    cases hhit
  | ok p =>
    obtain ⟨n, bound, hn, -, hbind, hvalues, -⟩ := h.2 p hprepared
    cases hn
    exact ⟨p, bound, rfl, hbind, hvalues⟩

end QueryPlans
