import QueryPlans.Proofs.Plan.Preparing
import QueryPlans.Proofs.Plan.Transparency

/-!
# Proofs/Plan/Accounting — one compilation for each shape

An engine that keeps all plans compiles each shape until that succeeds once, and then shares the
entry.  What it was asked to prepare is written down beside it (`EngineLog`), with what came of it;
so the log tells what was compiled for the cache, and a compiler that counts its calls tells how
often it was asked.

The invariant (`Accounted`) says that the cache holds just what was compiled for it and that every
counter is what the log adds up to.  It determines what the next request gets (`EngineLog.Answers`)
and passes on to the log with that request (`Accounted.prepare`).
-/

namespace QueryPlans

open Piece

variable {σ P : Type}

/-! ## The log of an engine -/

/-- Whether a request can be taken apart but no plan of its shape may be kept. -/
def Request.bypasses (r : Request) : Bool :=
  match r.normalize with
  | .ok n => !n.shape.isCacheable
  | .error _ => false

/-- A request with what came of preparing it. -/
abbrev Attempt (P : Type) := Request × Except PrepareError (Prepared P)

/-- The entry that was compiled for a shape whose plans are kept. -/
def Attempt.compiled? (attempt : Attempt P) : Option (Shape × PlanEntry P) :=
  match attempt.1.normalize, attempt.2 with
  | .ok n, .ok p => if n.shape.isCacheable && !p.cacheHit then some (n.shape, p.entry) else none
  | _, _ => none

/-- An engine, with all that it was asked to prepare, in order. -/
structure EngineLog (σ P : Type) where
  engine : Engine σ P
  attempts : List (Attempt P)

namespace EngineLog

/-- The log of an engine that was not asked for anything. -/
def start (e : Engine σ P) : EngineLog σ P := ⟨e, []⟩

/-- The engine prepares a request, and the log takes down what came of it. -/
def step (l : EngineLog σ P) (r : Request) : EngineLog σ P :=
  ⟨(l.engine.prepare r).2, l.attempts ++ [(r, (l.engine.prepare r).1)]⟩

/-- Several requests in order. -/
def run (l : EngineLog σ P) (requests : List Request) : EngineLog σ P := requests.foldl step l

/-- The entries that were compiled for shapes whose plans are kept, in order. -/
def compiled (l : EngineLog σ P) : List (Shape × PlanEntry P) :=
  l.attempts.filterMap Attempt.compiled?

end EngineLog

/-- **The counters agree with the log**, and the cache holds what was compiled for it. -/
structure Accounted (cache : PlanCache (PlanEntry P)) (calls serial : Nat)
    (attempts : List (Attempt P)) : Prop where
  filled : cache.IsFilled (XXH64.hash 0) (attempts.filterMap Attempt.compiled?)
  entries : cache.entries.Perm (attempts.filterMap Attempt.compiled?)
  lookUps : cache.stats.hits + cache.stats.misses = attempts.countP fun a => a.1.isCacheable
  calls : calls = cache.stats.misses + attempts.countP fun a => a.1.bypasses
  racesLost : cache.stats.racesLost = 0
  serials : ∀ attempt ∈ attempts, ∀ p, attempt.2 = .ok p → p.entry.serial < serial

namespace Accounted

variable {cache cache' : PlanCache (PlanEntry P)} {calls calls' serial serial' : Nat}
  {attempts : List (Attempt P)} {attempt : Attempt P}

/-- Nothing was asked of an empty cache. -/
theorem start {settings : CacheSettings} (henabled : settings.enabled = true)
    (hunbounded : settings.capacity = none) :
    Accounted (.ofSettings settings : PlanCache (PlanEntry P)) 0 0 [] where
  filled := .ofSettings henabled hunbounded
  entries := List.Perm.refl _
  lookUps := rfl
  calls := rfl
  racesLost := rfl
  serials _ h := nomatch h

/-- What one more request compiled comes last. -/
theorem filterMap_compiled?_append (attempts : List (Attempt P)) (attempt : Attempt P) :
    (attempts ++ [attempt]).filterMap Attempt.compiled? =
      attempts.filterMap Attempt.compiled? ++ attempt.compiled?.toList := by
  rw [List.filterMap_append]
  cases h : attempt.compiled? <;> simp [h]

/-- The log is one request longer, and each counter by what that request adds to it. -/
theorem snoc (h : Accounted cache calls serial attempts)
    (hfilled : cache'.IsFilled (XXH64.hash 0)
      (attempts.filterMap Attempt.compiled? ++ attempt.compiled?.toList))
    (hentries : cache'.entries.Perm
      (attempts.filterMap Attempt.compiled? ++ attempt.compiled?.toList))
    (hlookUps : cache'.stats.hits + cache'.stats.misses =
      cache.stats.hits + cache.stats.misses + if attempt.1.isCacheable then 1 else 0)
    (hcalls : calls' + cache.stats.misses =
      calls + cache'.stats.misses + if attempt.1.bypasses then 1 else 0)
    (hracesLost : cache'.stats.racesLost = cache.stats.racesLost) (hserial : serial ≤ serial')
    (hentry : ∀ p, attempt.2 = .ok p → p.entry.serial < serial') :
    Accounted cache' calls' serial' (attempts ++ [attempt]) where
  filled := filterMap_compiled?_append attempts attempt ▸ hfilled
  entries := filterMap_compiled?_append attempts attempt ▸ hentries
  lookUps := by
    rw [List.countP_append, List.countP_singleton, hlookUps, h.lookUps]
  calls := by
    have := h.calls
    rw [List.countP_append, List.countP_singleton]
    omega
  racesLost := hracesLost.trans h.racesLost
  serials := by
    refine List.forall_mem_append.2 ⟨fun other hother p hp => ?_, ?_⟩
    · exact Nat.lt_of_lt_of_le (h.serials other hother p hp) hserial
    · exact List.forall_mem_singleton.2 hentry

/-- An attempt that puts no entry in. -/
theorem snoc_of_none (h : Accounted cache calls serial attempts)
    (hcompiled : attempt.compiled? = none)
    (hfilled : cache'.IsFilled (XXH64.hash 0) (attempts.filterMap Attempt.compiled?))
    (hentries : cache'.entries.Perm cache.entries)
    (hlookUps : cache'.stats.hits + cache'.stats.misses =
      cache.stats.hits + cache.stats.misses + if attempt.1.isCacheable then 1 else 0)
    (hcalls : calls' + cache.stats.misses =
      calls + cache'.stats.misses + if attempt.1.bypasses then 1 else 0)
    (hracesLost : cache'.stats.racesLost = cache.stats.racesLost) (hserial : serial ≤ serial')
    (hentry : ∀ p, attempt.2 = .ok p → p.entry.serial < serial') :
    Accounted cache' calls' serial' (attempts ++ [attempt]) := by
  refine h.snoc ?_ ?_ hlookUps hcalls hracesLost hserial hentry
  · rw [hcompiled, Option.toList_none, List.append_nil]
    exact hfilled
  · rw [hcompiled, Option.toList_none, List.append_nil]
    exact hentries.trans h.entries

/-- What was compiled for the cache was handed out. -/
theorem exists_of_mem_compiled {kept : Shape × PlanEntry P}
    (hkept : kept ∈ attempts.filterMap Attempt.compiled?) :
    ∃ attempt ∈ attempts, ∃ n p, attempt.1.normalize = .ok n ∧ attempt.2 = .ok p ∧
      p.cacheHit = false ∧ (n.shape, p.entry) = kept := by
  obtain ⟨attempt, hmem, hattempt⟩ := List.mem_filterMap.1 hkept
  refine ⟨attempt, hmem, ?_⟩
  rw [Attempt.compiled?] at hattempt
  split at hattempt
  · next n p hn hp =>
    obtain ⟨hcond, hpair⟩ := Option.ite_none_right_eq_some.1 hattempt
    simp only [Bool.and_eq_true, Bool.not_eq_true'] at hcond
    exact ⟨n, p, hn, hp, hcond.2, Option.some.inj hpair⟩
  · cases hattempt

variable {e : Engine (σ × Nat) P} {compiler : Compiler σ P} {r : Request} {n : Normalized}
  {outcome : Except PrepareError (Prepared P)} {state : σ × Nat}

/-- A request that found nothing was a miss if plans of its shape are kept, and went past the cache
if not. -/
theorem counts_of_get_none (h : Accounted cache calls serial attempts) (hn : r.normalize = .ok n)
    (hget : cache.get n.shape = (none, cache')) :
    cache'.stats.hits + cache'.stats.misses =
        cache.stats.hits + cache.stats.misses + (if r.isCacheable then 1 else 0) ∧
      calls + 1 + cache.stats.misses =
        calls + cache'.stats.misses + (if r.bypasses then 1 else 0) := by
  obtain ⟨-, hhits, hmisses, -⟩ := PlanCache.of_get hget
  rw [h.filled.serves_eq, Option.isNone_none, Bool.and_true] at hmisses
  simp only [hhits, hmisses, Request.isCacheable_eq hn, Request.bypasses, hn]
  cases n.shape.isCacheable with
  | false => exact ⟨rfl, by simp; omega⟩
  | true => exact ⟨by simp; omega, by simp; omega⟩

/-- An entry was found. -/
theorem found {p : Prepared P} (h : Accounted cache calls serial attempts)
    (hn : r.normalize = .ok n) (hget : cache.get n.shape = (some p.entry, cache'))
    (hhit : p.cacheHit = true) : Accounted cache' calls serial (attempts ++ [(r, .ok p)]) := by
  have hshape := Shape.isNormal_of_normalizeWith hn
  obtain ⟨hcacheable, hmem⟩ := h.filled.exists_of_get hshape (congrArg Prod.fst hget)
  obtain ⟨hentries, hhits, hmisses, hracesLost⟩ := PlanCache.of_get hget
  refine h.snoc_of_none (by simp [Attempt.compiled?, hn, hhit]) (h.filled.of_get hget) hentries
    ?_ ?_ hracesLost (Nat.le_refl _) fun p' hp' => ?_
  · simp [hhits, hmisses, Request.isCacheable_eq hn, hcacheable]
    omega
  · simp [hmisses, Request.bypasses, hn, hcacheable]
  · -- The entry that was found was compiled for the cache, so it was handed out before.
    obtain ⟨earlier, hearlier, _, former, -, hformer, -, hpair⟩ := exists_of_mem_compiled hmem
    obtain rfl : p = p' := Except.ok.inj hp'
    rw [← (Prod.mk.inj hpair).2]
    exact h.serials earlier hearlier former hformer

/-- No entry was found and none was put in. -/
theorem missed (h : Accounted cache calls serial attempts) (hn : r.normalize = .ok n)
    (hget : cache.get n.shape = (none, cache'))
    (hcompiled : Attempt.compiled? (r, outcome) = none) (hserial : serial ≤ serial')
    (hentry : ∀ p, outcome = .ok p → p.entry.serial < serial') :
    Accounted cache' (calls + 1) serial' (attempts ++ [(r, outcome)]) := by
  obtain ⟨hentries, -, -, hracesLost⟩ := PlanCache.of_get hget
  obtain ⟨hlookUps, hcalls⟩ := h.counts_of_get_none hn hget
  exact h.snoc_of_none hcompiled (h.filled.of_get hget) hentries hlookUps hcalls hracesLost hserial
    hentry

/-- No entry was found and a new one was put in, if the shape may be kept. -/
theorem compiled {p : Prepared P} {cache'' : PlanCache (PlanEntry P)}
    (h : Accounted cache calls serial attempts) (hn : r.normalize = .ok n)
    (hget : cache.get n.shape = (none, cache')) {entry : PlanEntry P}
    (hserial : entry.serial = serial)
    (hinsert : cache'.insert n.shape entry = (p.entry, cache'')) (hhit : p.cacheHit = false) :
    Accounted cache'' (calls + 1) (serial + 1) (attempts ++ [(r, .ok p)]) := by
  have hshape := Shape.isNormal_of_normalizeWith hn
  have hinsert' := h.filled.insert_of_get hshape hget entry
  obtain ⟨rfl, rfl⟩ := Prod.mk.inj (hinsert.symm.trans hinsert')
  have hentry (p') (hp' : (.ok p : Except PrepareError (Prepared P)) = .ok p') :
      p'.entry.serial < serial + 1 := by
    obtain rfl : p = p' := Except.ok.inj hp'
    exact hserial ▸ Nat.lt_succ_self _
  cases hcacheable : n.shape.isCacheable with
  | false =>
    exact h.missed hn hget (by simp [Attempt.compiled?, hn, hcacheable]) (Nat.le_succ _) hentry
  | true =>
    have hcompiled : Attempt.compiled? (r, .ok p) = some (n.shape, p.entry) := by
      simp [Attempt.compiled?, hn, hcacheable, hhit]
    have hfilled := (h.filled.of_get hget).insert hshape hcacheable p.entry
    rw [hinsert', if_pos hcacheable] at hfilled
    obtain ⟨hentries, -, -, hracesLost⟩ := PlanCache.of_get hget
    obtain ⟨hlookUps, hcalls⟩ := h.counts_of_get_none hn hget
    refine h.snoc (by rw [hcompiled]; exact hfilled) ?_ hlookUps hcalls hracesLost (Nat.le_succ _)
      hentry
    rw [hcompiled]
    exact ((hentries.trans h.entries).cons _).trans (List.perm_append_singleton _ _).symm

/-- **Preparing one more request keeps the counters in agreement with the log.** -/
theorem prepare (h : Accounted e.cache e.compilerState.2 e.nextSerial attempts)
    (hcompiler : e.compiler = compiler.tallied)
    (hprepares : Prepares e r outcome cache' state serial) :
    Accounted cache' state.2 serial (attempts ++ [(r, outcome)]) := by
  cases hprepares with
  | rejected hn =>
    refine h.snoc_of_none (by simp [Attempt.compiled?, hn]) h.filled (List.Perm.refl _) ?_ ?_ rfl
      (Nat.le_refl _) (fun p hp => nomatch hp)
    · simp [Request.isCacheable_eq_false hn]
    · simp [Request.bypasses, hn]
  | found hn hget hhit => exact h.found hn hget hhit
  | failed hn hget hrun =>
    rw [hcompiler] at hrun
    rw [Compiler.calls_of_tallied hrun]
    exact h.missed hn hget (by simp [Attempt.compiled?, hn]) (Nat.le_refl _)
      (fun p hp => nomatch hp)
  | compiled hn hget hrun hinsert hhit =>
    rw [hcompiler] at hrun
    rw [Compiler.calls_of_tallied hrun]
    exact h.compiled hn hget rfl hinsert hhit

/-- Each shape was compiled for the cache once. -/
theorem nodup_compiled (h : Accounted cache calls serial attempts) :
    ((attempts.filterMap Attempt.compiled?).map Prod.fst).Nodup :=
  (h.entries.map Prod.fst).nodup_iff.1 h.filled.keyed.nodup

end Accounted

/-! ## What the next request gets -/

namespace EngineLog

/-- **What the next request gets**, in terms of what the engine was asked before. -/
structure Answers (l : EngineLog (σ × Nat) P) (r : Request) : Prop where
  /-- What cannot be taken apart changes nothing. -/
  rejected : ∀ error, r.normalize = .error error →
    l.engine.prepare r = (.error (.lift error), l.engine)
  /-- A request hits when its shape was compiled for the cache before. -/
  hit_iff : ∀ n, r.normalize = .ok n →
    ((∃ p, (l.engine.prepare r).1 = .ok p ∧ p.cacheHit = true) ↔
      ∃ kept ∈ l.compiled, kept.1.agrees n.shape = true)
  /-- A hit shares the entry that was compiled for the shape. -/
  shared : ∀ n p, r.normalize = .ok n → (l.engine.prepare r).1 = .ok p → p.cacheHit = true →
    ∀ kept ∈ l.compiled, kept.1.agrees n.shape = true → p.entry = kept.2
  /-- Without a hit, the entry is none that was handed out before. -/
  fresh : ∀ p, (l.engine.prepare r).1 = .ok p → p.cacheHit = false →
    ∀ former ∈ l.attempts, ∀ p', former.2 = .ok p' → p'.entry.serial ≠ p.entry.serial
  /-- What is not modelled throughout leaves the cache alone and is compiled every time. -/
  unmodelled : isModelled r = false →
    (l.engine.prepare r).2.cache = l.engine.cache ∧
    ∀ n, r.normalize = .ok n →
      (l.engine.prepare r).2.compilerState.2 = l.engine.compilerState.2 + 1 ∧
      ∀ p, (l.engine.prepare r).1 = .ok p → p.cacheHit = false
  /-- Compiling in vain changes no more than the number of misses. -/
  failed : ∀ error, (l.engine.prepare r).1 = .error (.compile error) →
    (l.engine.prepare r).2.cache =
      if r.isCacheable then l.engine.cache.count fun s => { s with misses := s.misses + 1 }
      else l.engine.cache

/-- **A log of an engine whose compiler counts**, with counters that agree with it. -/
structure IsAccounted (compiler : Compiler σ P) (l : EngineLog (σ × Nat) P) : Prop where
  compiler : l.engine.compiler = compiler.tallied
  accounted : Accounted l.engine.cache l.engine.compilerState.2 l.engine.nextSerial l.attempts

namespace IsAccounted

variable {compiler : Compiler σ P} {l : EngineLog (σ × Nat) P} {r : Request}

/-- **One more request** is accounted for. -/
theorem step (h : l.IsAccounted compiler) (r : Request) : (l.step r).IsAccounted compiler := by
  obtain ⟨hcompiler, hprepares⟩ := l.engine.prepares r
  exact ⟨hcompiler.trans h.compiler, h.accounted.prepare h.compiler hprepares⟩

/-- So is every sequence of them. -/
theorem run (h : l.IsAccounted compiler) (requests : List Request) :
    (l.run requests).IsAccounted compiler := by
  induction requests generalizing l with
  | nil => exact h
  | cons r requests ih => exact ih (h.step r)

/-- What is accounted for determines the next answer. -/
theorem answers (h : l.IsAccounted compiler) (r : Request) : l.Answers r := by
  obtain ⟨-, hprepares⟩ := l.engine.prepares r
  have hfilled := h.accounted.filled
  refine ⟨fun error hn => ?_, fun n hn => ?_, fun n p hn hp hhit kept hkept hagrees => ?_,
    fun p hp hhit former hformer p' hp' => ?_, fun hmodelled => ?_, fun error herror => ?_⟩
  · rw [Engine.prepare, Engine.normalize, hn]
  · rw [hprepares.hit_iff hn, compiled]
    exact hfilled.isSome_get_iff (Shape.isNormal_of_normalizeWith hn)
  · rw [hp] at hprepares
    have hshape := Shape.isNormal_of_normalizeWith hn
    obtain ⟨-, hmem⟩ := hfilled.exists_of_get hshape (hprepares.entry_of_hit hn hhit)
    have hkey : (n.shape, p.entry).1 = kept.1 :=
      (((hfilled.normal kept hkept).1.agrees_iff hshape).1 hagrees).2.symm
    exact congrArg Prod.snd
      (List.inj_on_of_nodup_map h.accounted.nodup_compiled hmem hkept hkey)
  · rw [hp] at hprepares
    rw [hprepares.serial_eq hfilled hhit]
    exact Nat.ne_of_lt (h.accounted.serials former hformer p' hp')
  · have hserves (n) (hn : r.normalize = .ok n) : l.engine.cache.serves n.shape = false := by
      rw [hfilled.serves_eq, Request.isCacheable_of_normalizeWith hn, hmodelled]
    refine ⟨?_, fun n hn => ⟨?_, fun p hp => ?_⟩⟩
    · cases hn : r.normalize with
      | error error => rw [Engine.prepare, Engine.normalize, hn]
      | ok n => exact (hprepares.of_not_serves hn (hserves n hn)).1
    · rw [(hprepares.of_not_serves hn (hserves n hn)).2, h.compiler]
      rfl
    · by_contra hhit
      have hsome := (hprepares.hit_iff hn).1 ⟨p, hp, by simpa using hhit⟩
      rw [PlanCache.fst_get, hserves n hn] at hsome
      cases hsome
  · rw [herror] at hprepares
    exact hprepares.of_failed hfilled

end IsAccounted

/-! ## Whole runs -/

/-- The attempts are on the requests, in order. -/
theorem requests_run (l : EngineLog σ P) (requests : List Request) :
    (l.run requests).attempts.map Prod.fst = l.attempts.map Prod.fst ++ requests := by
  induction requests generalizing l with
  | nil => exact (List.append_nil _).symm
  | cons r requests ih =>
    refine (ih (l.step r)).trans ?_
    rw [step, List.map_append, List.append_assoc]
    rfl

/-- Counting the calls of the compiler changes nothing in the log. -/
theorem attempts_run_tallied (e : Engine σ P) (calls : Nat) (attempts : List (Attempt P))
    (requests : List Request) :
    (run ⟨e.tallied calls, attempts⟩ requests).attempts =
      (run ⟨e, attempts⟩ requests).attempts := by
  induction requests generalizing e calls attempts with
  | nil => rfl
  | cons r requests ih =>
    obtain ⟨calls', hprepare⟩ := e.prepare_tallied calls r
    change (run (step ⟨e.tallied calls, attempts⟩ r) requests).attempts = _
    rw [step, hprepare]
    exact ih (e.prepare r).2 calls' _

/-- **Each shape is compiled until that succeeds once, and every call is accounted for.**  An engine
that keeps all plans answers every next request as its log demands, whatever its compiler does, and
its counters and the calls of its compiler are what the log adds up to. -/
theorem run_accounts (compiler : Compiler σ P) (state : σ) {settings : Settings}
    (henabled : settings.cache.enabled = true) (hunbounded : settings.cache.capacity = none)
    (requests : List Request) :
    let l := (start (.ofSettings compiler.tallied (state, 0) settings)).run requests
    let stats := l.engine.cache.stats
    l.attempts = ((start (.ofSettings compiler state settings)).run requests).attempts ∧
    (∀ r, l.Answers r) ∧
    (l.compiled.map Prod.fst).Nodup ∧
    stats.hits + stats.misses = requests.countP Request.isCacheable ∧
    l.engine.compilerState.2 = stats.misses + requests.countP Request.bypasses ∧
    stats.inserts = l.engine.cache.size ∧
    l.engine.cache.size = l.compiled.length ∧
    stats.racesLost = 0 ∧ stats.evictions = 0 := by
  intro l stats
  have hstart : (start (.ofSettings compiler.tallied (state, 0) settings)).IsAccounted compiler :=
    ⟨rfl, .start henabled hunbounded⟩
  have h : l.IsAccounted compiler := hstart.run requests
  have hrequests : l.attempts.map Prod.fst = requests := requests_run _ requests
  refine ⟨attempts_run_tallied (.ofSettings compiler state settings) 0 [] requests, h.answers,
    h.accounted.nodup_compiled, ?_, ?_, h.accounted.filled.inserts_eq,
    h.accounted.entries.length_eq, h.accounted.racesLost, h.accounted.filled.evictions⟩
  · rw [← hrequests, List.countP_map]
    exact h.accounted.lookUps
  · rw [← hrequests, List.countP_map]
    exact h.accounted.calls

/-- A compiler that rejects the first shape it is given, and no other. -/
def rejectingFirst : Compiler Nat (List Slot) := fun calls shape slots =>
  if calls = 0 then (.error (.rejected "not yet"), 1) else Compiler.counting calls shape slots

/-- Of three requests of one shape the first fails, the second compiles and the third hits. -/
theorem run_accounts_above :
    let l := (start (.ofSettings (Compiler.tallied rejectingFirst) (0, 0) ⟨⟨true, 0, none⟩, 1⟩)).run
      [.above 18, .above 18, .above 65]
    l.Answers (.above 70) ∧
    l.attempts.map (fun attempt => attempt.2.toOption.map Prepared.cacheHit) =
      [none, some false, some true] ∧
    l.engine.cache.stats = ⟨1, 2, 1, 0, 0⟩ ∧
    l.engine.compilerState.2 =
      l.engine.cache.stats.misses +
        [Request.above 18, .above 18, .above 65].countP Request.bypasses := by
  have henabled : (⟨⟨true, 0, none⟩, 1⟩ : Settings).cache.enabled = true := rfl
  obtain ⟨-, hanswers, -, -, hcalls, -⟩ := run_accounts rejectingFirst 0 henabled rfl
    [.above 18, .above 18, .above 65]
  exact ⟨hanswers _, by decide +kernel, by decide +kernel, hcalls⟩

end EngineLog

end QueryPlans
