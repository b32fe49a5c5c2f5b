import QueryPlans.Plan.Clients
import QueryPlans.Proofs.Plan.Preparing
import QueryPlans.Proofs.Plan.Transparency

/-!
# Proofs/Plan/Convergence — clients of one shape end with one entry

Clients that share an engine may all miss a plan at once, and each then compiles its own.  Whoever
publishes first settles it: the cache keeps that entry, and those who publish later are handed it
instead of theirs.  The invariant (`SharedEngine.IsConverging`) ties the three parts of a state
together: the cache holds the first entry that was published for each shape, every client that has
come to its end holds the first entry of its shape, and the counters count these clients.

A step is one of nine (`Engine.advances`), of which only a look-up and a publication touch the
cache; so the invariant passes from step to step (`IsConverging.step`) and holds after every
schedule (`IsConverging.run`).
-/

namespace QueryPlans

variable {σ P : Type}

/-! ## A client on its own -/

/-- **A client that nobody interrupts prepares its request.** -/
theorem Engine.advance_thrice (e : Engine σ P) (r : Request) :
    let first := e.advance ⟨r, .waiting⟩
    let second := first.2.advance ⟨r, first.1⟩
    second.2.advance ⟨r, second.1⟩ = (.done (e.prepare r).1, (e.prepare r).2) := by
  simp only [prepare, advance, begin]
  rcases e.normalize r with ⟨error | n, e'⟩
  · rfl
  · simp only [obtain, lookUp]
    cases hserves : e'.cache.serves n.shape with
    | true =>
      have hserves_get : (e'.cache.get n.shape).2.serves n.shape = true := by
        rw [PlanCache.serves, PlanCache.isEnabled, PlanCache.settings_get]
        exact hserves
      simp only [if_true]
      rcases hget : e'.cache.get n.shape with ⟨_ | entry, cache⟩
      · have hcache := Engine.cache_compile { e' with cache } n
        simp only [compileOwn]
        rcases hrun : Engine.compile { e' with cache } n with ⟨error | entry, e''⟩
        · rfl
        · have hserves' : e''.cache.serves n.shape = true := by
            rw [hrun] at hcache
            rw [hget] at hserves_get
            exact hcache ▸ hserves_get
          simp only [hserves', if_true]
          rfl
      · rfl
    | false =>
      have hcache := e'.cache_compile n
      simp only [Bool.false_eq_true, if_false, compileOwn]
      rcases hrun : e'.compile n with ⟨error | entry, e''⟩
      · rfl
      · have hserves' : e''.cache.serves n.shape = false := by
          rw [hrun] at hcache
          exact hcache ▸ hserves
        simp only [hserves', Bool.false_eq_true, if_false]
        rfl

/-! ## One step -/

/-- **What one step does** to the cache and to the client whose turn it is. -/
inductive Advances (cache : PlanCache (PlanEntry P)) (c : Client P) :
    Stage P → PlanCache (PlanEntry P) → Prop
  | rejected {error : LiftError} (hstage : c.stage = .waiting) :
    Advances cache c (.done (.error (.lift error))) cache
  | bypassing {n : Normalized} (hstage : c.stage = .waiting) (hn : c.request.normalize = .ok n)
    (hserves : cache.serves n.shape = false) : Advances cache c (.missed n) cache
  | found {n : Normalized} {p : Prepared P} (hstage : c.stage = .waiting)
    (hn : c.request.normalize = .ok n) (hserves : cache.serves n.shape = true)
    (hget : (cache.get n.shape).1 = some p.entry) :
    Advances cache c (.done (.ok p)) (cache.get n.shape).2
  | missed {n : Normalized} (hstage : c.stage = .waiting) (hn : c.request.normalize = .ok n)
    (hserves : cache.serves n.shape = true) (hget : (cache.get n.shape).1 = none) :
    Advances cache c (.missed n) (cache.get n.shape).2
  | failed {n : Normalized} {error : CompileError} (hstage : c.stage = .missed n) :
    Advances cache c (.done (.error (.compile error))) cache
  | compiled {n : Normalized} {entry : PlanEntry P} (hstage : c.stage = .missed n)
    (hserves : cache.serves n.shape = true) : Advances cache c (.compiled n entry) cache
  | bypassed {n : Normalized} {p : Prepared P} (hstage : c.stage = .missed n)
    (hserves : cache.serves n.shape = false) : Advances cache c (.done (.ok p)) cache
  | published {n : Normalized} {entry : PlanEntry P} {p : Prepared P}
    (hstage : c.stage = .compiled n entry) (hentry : (cache.insert n.shape entry).1 = p.entry) :
    Advances cache c (.done (.ok p)) (cache.insert n.shape entry).2
  | finished {outcome : Except PrepareError (Prepared P)} (hstage : c.stage = .done outcome) :
    Advances cache c (.done outcome) cache

/-- **One turn of a client** does one of these, by the stage that it is in. -/
theorem Engine.advances (e : Engine σ P) (c : Client P) :
    Advances e.cache c (e.advance c).1 (e.advance c).2.cache := by
  rw [advance]
  cases hstage : c.stage with
  | waiting =>
    simp only [begin, normalize]
    cases hn : c.request.normalize with
    | error error => exact .rejected hstage
    | ok n =>
      cases hserves : e.cache.serves n.shape with
      | false =>
        simp only [record, hserves]
        exact .bypassing hstage hn hserves
      | true =>
        simp only [record, hserves, if_true, lookUp]
        cases hget : (e.cache.get n.shape).1 with
        | none => exact .missed hstage hn hserves hget
        | some entry => exact .found hstage hn hserves hget
  | missed n =>
    simp only [compileOwn]
    rcases hrun : e.compile n with ⟨error | entry, e'⟩
    · have hcache : e'.cache = e.cache := by rw [← e.cache_compile n, hrun]
      simp only [hcache]
      exact .failed hstage
    · have hcache : e'.cache = e.cache := by rw [← e.cache_compile n, hrun]
      cases hserves : e.cache.serves n.shape with
      | true =>
        simp only [hcache, hserves, if_true]
        exact .compiled hstage hserves
      | false =>
        simp only [hcache, hserves, Bool.false_eq_true, if_false]
        exact .bypassed hstage hserves
  | compiled n entry => exact .published hstage rfl
  | done outcome => exact .finished hstage

/-! ## What every step keeps -/

/-- Whether a client has come to its end with an entry that others of its shape share. -/
def Client.isServed (c : Client P) : Bool := c.request.isCacheable && c.entry?.isSome

/-- **A client that goes by what was published.** -/
structure Client.Follows (published : List (Shape × PlanEntry P)) (c : Client P) : Prop where
  missed : ∀ n, c.stage = .missed n → c.request.normalize = .ok n
  compiled : ∀ n entry, c.stage = .compiled n entry →
    c.request.normalize = .ok n ∧ n.shape.isCacheable = true
  done : ∀ n entry, c.request.normalize = .ok n → n.shape.isCacheable = true →
    c.entry? = some entry → firstFor? published n.shape = some entry

/-- Who published first stays first. -/
theorem firstFor?_mono {published published' : List (Shape × PlanEntry P)} {shape : Shape}
    {entry : PlanEntry P} (hmore : published <+: published')
    (h : firstFor? published shape = some entry) : firstFor? published' shape = some entry := by
  obtain ⟨more, rfl⟩ := hmore
  obtain ⟨kept, hfind, rfl⟩ := Option.map_eq_some_iff.1 h
  rw [firstFor?, List.find?_append, hfind, Option.some_or, Option.map_some]

/-- A client follows what is published later, too. -/
theorem Client.Follows.mono {published published' : List (Shape × PlanEntry P)}
    {c : Client P} (h : c.Follows published) (hmore : published <+: published') :
    c.Follows published' :=
  ⟨h.missed, h.compiled, fun n entry hn hcacheable hentry =>
    firstFor?_mono hmore (h.done n entry hn hcacheable hentry)⟩

namespace Client

variable {published : List (Shape × PlanEntry P)} {c : Client P}

/-- A client that has missed has nothing to agree with yet. -/
theorem follows_missed {n : Normalized} (hn : c.request.normalize = .ok n) :
    Follows published { c with stage := .missed n } where
  missed n' hstage := by
    cases hstage
    exact hn
  compiled n' entry hstage := nomatch hstage
  done n' entry _ _ hentry := nomatch hentry

/-- A compiled entry is the client's own until it is published. -/
theorem follows_compiled {n : Normalized} {entry : PlanEntry P}
    (hn : c.request.normalize = .ok n) (hcacheable : n.shape.isCacheable = true) :
    Follows published { c with stage := .compiled n entry } where
  missed n' hstage := nomatch hstage
  compiled n' entry' hstage := by
    cases hstage
    exact ⟨hn, hcacheable⟩
  done n' entry' _ _ hentry := nomatch hentry

/-- A client that failed has nothing. -/
theorem follows_error {error : PrepareError} :
    Follows published { c with stage := .done (.error error) } where
  missed _ hstage := nomatch hstage
  compiled _ _ hstage := nomatch hstage
  done _ _ _ _ hentry := nomatch hentry

/-- A client that is done has the entry that was published first for its shape. -/
theorem follows_ok {n : Normalized} {p : Prepared P} (hn : c.request.normalize = .ok n)
    (hfirst : n.shape.isCacheable = true → firstFor? published n.shape = some p.entry) :
    Follows published { c with stage := .done (.ok p) } where
  missed n' hstage := nomatch hstage
  compiled n' entry hstage := nomatch hstage
  done n' entry hn' hcacheable hentry := by
    cases hn.symm.trans hn'
    exact (hfirst hcacheable).trans hentry

theorem isServed_ok {p : Prepared P} :
    isServed { c with stage := .done (.ok p) } = c.request.isCacheable :=
  Bool.and_true _

/-- Who is not at its end has not been served. -/
theorem isServed_eq_false (h : c.entry? = none) : c.isServed = false := by
  rw [isServed, h]
  exact Bool.and_false _

end Client

/-- **The parts of a state agree**: the cache holds what was published first for each shape, the
clients go by it, and the cache has handed out an entry to each client that was served. -/
structure Converging (cache : PlanCache (PlanEntry P)) (clients : List (Client P))
    (published : List (Shape × PlanEntry P)) : Prop where
  filled : cache.IsFilled (XXH64.hash 0) published
  follows : ∀ c ∈ clients, c.Follows published
  served : cache.handedOut = clients.countP Client.isServed

namespace Converging

variable {cache cache' : PlanCache (PlanEntry P)} {clients : List (Client P)}
  {published published' : List (Shape × PlanEntry P)} {turn : Nat} {c : Client P} {stage : Stage P}

/-- Nothing is published before the first turn. -/
theorem start {settings : CacheSettings} (henabled : settings.enabled = true)
    (hunbounded : settings.capacity = none) (requests : List Request) :
    Converging (.ofSettings settings : PlanCache (PlanEntry P))
      (requests.map fun r => ⟨r, .waiting⟩) [] where
  filled := .ofSettings henabled hunbounded
  follows c hc := by
    obtain ⟨r, -, rfl⟩ := List.mem_map.1 hc
    exact ⟨fun _ h => (nomatch h), fun _ _ h => (nomatch h), fun _ _ _ _ h => (nomatch h)⟩
  served := by
    refine (List.countP_eq_zero.2 fun c hc => ?_).symm
    obtain ⟨r, -, rfl⟩ := List.mem_map.1 hc
    simp [Client.isServed, Client.entry?]

/-- It is enough to look at the client whose turn it is. -/
theorem set (h : Converging cache clients published) (hturn : clients[turn]? = some c)
    (hrunning : c.entry? = none) (hmore : published <+: published')
    (hfilled : cache'.IsFilled (XXH64.hash 0) published')
    (hfollows : Client.Follows published' { c with stage })
    (hserved : cache'.handedOut =
      cache.handedOut + if Client.isServed { c with stage } then 1 else 0) :
    Converging cache' (clients.set turn { c with stage }) published' where
  filled := hfilled
  follows other hother := by
    rcases List.mem_or_eq_of_mem_set hother with hmem | rfl
    · exact (h.follows other hmem).mono hmore
    · exact hfollows
  served := by
    obtain ⟨hlt, hget⟩ := List.getElem?_eq_some_iff.1 hturn
    rw [hserved, h.served, List.countP_set hlt, hget, Client.isServed_eq_false hrunning]
    simp

/-- A step that publishes nothing and leaves the cache alone serves nobody. -/
theorem set_unserved (h : Converging cache clients published) (hturn : clients[turn]? = some c)
    (hrunning : c.entry? = none) (hfollows : Client.Follows published { c with stage })
    (hunserved : Client.isServed { c with stage } = false) :
    Converging cache (clients.set turn { c with stage }) published :=
  h.set hturn hrunning List.prefix_rfl h.filled hfollows (by simp [hunserved])

/-- **One step keeps the parts of a state in agreement.** -/
theorem advance (h : Converging cache clients published) (hturn : clients[turn]? = some c)
    (hadvance : Advances cache c stage cache') :
    Converging cache' (clients.set turn { c with stage })
      (published ++ c.publication.toList) := by
  have hclient := h.follows c (List.mem_of_getElem? hturn)
  -- Only the stage that publishes changes what is published; all others keep the cache filled as it
  -- was.
  cases hadvance with
  | rejected hstage =>
    simp only [Client.publication, hstage, Option.toList_none, List.append_nil]
    exact h.set_unserved hturn (by rw [Client.entry?, hstage]) Client.follows_error
      (Client.isServed_eq_false rfl)
  | bypassing hstage hn _ =>
    simp only [Client.publication, hstage, Option.toList_none, List.append_nil]
    exact h.set_unserved hturn (by rw [Client.entry?, hstage]) (Client.follows_missed hn)
      (Client.isServed_eq_false rfl)
  | @found n p hstage hn hserves hget =>
    simp only [Client.publication, hstage, Option.toList_none, List.append_nil]
    have hcacheable : n.shape.isCacheable = true := (h.filled.serves_eq _).symm.trans hserves
    have hfirst : firstFor? published n.shape = some p.entry :=
      (h.filled.fst_get (Shape.isNormal_of_normalizeWith hn) hcacheable).symm.trans hget
    refine h.set hturn (by rw [Client.entry?, hstage]) List.prefix_rfl (h.filled.get n.shape)
      (Client.follows_ok hn fun _ => hfirst) ?_
    rw [PlanCache.handedOut_get, hget, Client.isServed_ok, Request.isCacheable_eq hn, hcacheable]
    rfl
  | @missed n hstage hn _ hget =>
    simp only [Client.publication, hstage, Option.toList_none, List.append_nil]
    refine h.set hturn (by rw [Client.entry?, hstage]) List.prefix_rfl (h.filled.get n.shape)
      (Client.follows_missed hn) ?_
    rw [PlanCache.handedOut_get, hget, Client.isServed_eq_false rfl]
    rfl
  | failed hstage =>
    simp only [Client.publication, hstage, Option.toList_none, List.append_nil]
    exact h.set_unserved hturn (by rw [Client.entry?, hstage]) Client.follows_error
      (Client.isServed_eq_false rfl)
  | @compiled n entry hstage hserves =>
    simp only [Client.publication, hstage, Option.toList_none, List.append_nil]
    have hcacheable : n.shape.isCacheable = true := (h.filled.serves_eq _).symm.trans hserves
    exact h.set_unserved hturn (by rw [Client.entry?, hstage])
      (Client.follows_compiled (hclient.missed n hstage) hcacheable) (Client.isServed_eq_false rfl)
  | @bypassed n p hstage hserves =>
    simp only [Client.publication, hstage, Option.toList_none, List.append_nil]
    have hn := hclient.missed n hstage
    have hcacheable : n.shape.isCacheable = false := (h.filled.serves_eq _).symm.trans hserves
    refine h.set_unserved hturn (by rw [Client.entry?, hstage]) (Client.follows_ok hn ?_) ?_
    · intro hcacheable'
      cases hcacheable.symm.trans hcacheable'
    · rw [Client.isServed_ok, Request.isCacheable_eq hn, hcacheable]
  | @published n entry p hstage hentry =>
    simp only [Client.publication, hstage, Option.toList_some]
    obtain ⟨hn, hcacheable⟩ := hclient.compiled n entry hstage
    have hshape := Shape.isNormal_of_normalizeWith hn
    have hserves := (h.filled.serves_eq n.shape).trans hcacheable
    have hfirst : firstFor? (published ++ [(n.shape, entry)]) n.shape = some p.entry := by
      rw [← hentry, h.filled.fst_insert hshape hcacheable, firstFor?]
    refine h.set hturn (by rw [Client.entry?, hstage]) (List.prefix_append _ _)
      (h.filled.insert hshape hcacheable entry) (Client.follows_ok hn fun _ => hfirst) ?_
    rw [PlanCache.handedOut_insert hserves, Client.isServed_ok, Request.isCacheable_eq hn,
      hcacheable]
    rfl
  | finished hstage =>
    simp only [Client.publication, hstage, Option.toList_none, List.append_nil]
    obtain ⟨hlt, rfl⟩ := List.getElem?_eq_some_iff.1 hturn
    rw [← hstage, List.set_getElem_self]
    exact h

end Converging

namespace SharedEngine

/-- Clients, cache and publications of a state agree. -/
def IsConverging (s : SharedEngine σ P) : Prop := Converging s.engine.cache s.clients s.published

variable {s : SharedEngine σ P}

/-- **One turn** keeps to the published entries. -/
theorem IsConverging.step (h : s.IsConverging) (turn : Nat) : (s.step turn).IsConverging := by
  rw [SharedEngine.step]
  cases hturn : s.clients[turn]? with
  | none => exact h
  | some c => exact Converging.advance h hturn (s.engine.advances c)

/-- So does every schedule. -/
theorem IsConverging.run (h : s.IsConverging) (schedule : List Nat) :
    (s.run schedule).IsConverging := by
  induction schedule generalizing s with
  | nil => exact h
  | cons turn schedule ih => exact ih (h.step turn)

/-- What was published stays so. -/
theorem published_prefix_run (s : SharedEngine σ P) (schedule : List Nat) :
    s.published <+: (s.run schedule).published := by
  induction schedule generalizing s with
  | nil => exact List.prefix_rfl
  | cons turn schedule ih =>
    refine List.IsPrefix.trans ?_ (ih (s.step turn))
    rw [step]
    cases s.clients[turn]? with
    | none => exact List.prefix_rfl
    | some c => exact List.prefix_append _ _

/-- The requests of the clients stay the same. -/
theorem requests_run (s : SharedEngine σ P) (schedule : List Nat) :
    (s.run schedule).clients.map Client.request = s.clients.map Client.request := by
  induction schedule generalizing s with
  | nil => rfl
  | cons turn schedule ih =>
    refine (ih (s.step turn)).trans ?_
    rw [step]
    cases hturn : s.clients[turn]? with
    | none => rfl
    | some c =>
      obtain ⟨hlt, rfl⟩ := List.getElem?_eq_some_iff.1 hturn
      have hlt' : turn < (s.clients.map Client.request).length := by simpa using hlt
      simp only [List.map_set]
      rw [← List.getElem_map Client.request (h := hlt'), List.set_getElem_self]

/-- A client that starts when its shape is published finds the first entry. -/
theorem IsConverging.begin_eq (h : s.IsConverging) {r : Request} {n : Normalized}
    {entry : PlanEntry P} (hn : r.normalize = .ok n)
    (hfirst : firstFor? s.published n.shape = some entry) :
    (s.engine.begin r).1 = .done (.ok (s.engine.prepared entry n.arguments true)) := by
  have hcacheable : n.shape.isCacheable = true := by
    obtain ⟨kept, hfind, -⟩ := Option.map_eq_some_iff.1 hfirst
    have hagrees : kept.1.agrees n.shape = true := by simpa only using List.find?_some hfind
    simp only [Shape.agrees, Bool.and_eq_true] at hagrees
    exact hagrees.1.1.2
  have hget : (s.engine.cache.get n.shape).1 = some entry :=
    (h.filled.fst_get (Shape.isNormal_of_normalizeWith hn) hcacheable).trans hfirst
  have hserves : s.engine.cache.serves n.shape = true :=
    (h.filled.serves_eq n.shape).trans hcacheable
  simp only [Engine.begin, Engine.normalize, hn, Engine.record, hserves, if_true, Engine.lookUp,
    hget]
  rfl

/-- **Clients that share an unbounded cache converge.**  After any schedule, all clients of one
shape that have come to their end hold the entry that was published first for it, and every later
look-up finds it.  The cache holds one entry for each published shape and nothing else, and once
every client whose plan may be kept has its entry, the counters add up to the number of these
clients. -/
theorem run_converges (compiler : Compiler σ P) (state : σ) {settings : Settings}
    (henabled : settings.cache.enabled = true) (hunbounded : settings.cache.capacity = none)
    (requests : List Request) (schedule : List Nat) :
    let s := (start (.ofSettings compiler state settings) requests).run schedule
    (∀ c ∈ s.clients, ∀ n entry, c.request.normalize = .ok n → n.shape.isCacheable = true →
      c.entry? = some entry → firstFor? s.published n.shape = some entry) ∧
    (∀ c ∈ s.clients, ∀ c' ∈ s.clients, ∀ n n' entry entry',
      c.request.normalize = .ok n → c'.request.normalize = .ok n' →
      n.shape.agrees n'.shape = true → c.entry? = some entry → c'.entry? = some entry' →
      entry = entry') ∧
    (∀ later r n entry, r.normalize = .ok n → firstFor? s.published n.shape = some entry →
      ((s.run later).engine.begin r).1 =
        .done (.ok ((s.run later).engine.prepared entry n.arguments true))) ∧
    (∀ kept ∈ s.published, ∃ first, firstFor? s.published kept.1 = some first ∧
      s.engine.cache.entries.filter (fun other => other.1.agrees kept.1) = [(kept.1, first)]) ∧
    s.engine.cache.entries ⊆ s.published ∧
    s.engine.cache.stats.inserts = s.engine.cache.size ∧
    ((∀ c ∈ s.clients, c.request.isCacheable = true → c.entry?.isSome = true) →
      s.engine.cache.stats.hits + s.engine.cache.stats.inserts + s.engine.cache.stats.racesLost =
        requests.countP Request.isCacheable) := by
  intro s
  have hstart : (start (.ofSettings compiler state settings) requests).IsConverging :=
    Converging.start henabled hunbounded requests
  have h : s.IsConverging := hstart.run schedule
  refine ⟨fun c hc => (h.follows c hc).done, ?_, ?_, ?_, h.filled.entries_subset,
    h.filled.inserts_eq, ?_⟩
  · intro c hc c' hc' n n' entry entry' hn hn' hagrees hentry hentry'
    obtain ⟨hcacheable, hshape⟩ := ((Shape.isNormal_of_normalizeWith hn).agrees_iff
      (Shape.isNormal_of_normalizeWith hn')).1 hagrees
    have hfirst := (h.follows c hc).done n entry hn hcacheable hentry
    have hfirst' := (h.follows c' hc').done n' entry' hn' (hshape ▸ hcacheable) hentry'
    rw [hshape] at hfirst
    exact Option.some.inj (hfirst.symm.trans hfirst')
  · intro later r n entry hn hfirst
    exact (h.run later).begin_eq hn (firstFor?_mono (s.published_prefix_run later) hfirst)
  · intro kept hkept
    obtain ⟨first, hfirst, hfilter⟩ := h.filled.exists_filter_agrees hkept
    exact ⟨first, by rw [firstFor?, hfirst, Option.map_some], hfilter⟩
  · intro hdone
    have hserved : s.clients.countP Client.isServed =
        s.clients.countP (Request.isCacheable ∘ Client.request) := by
      refine List.countP_congr fun c hc => ?_
      rw [Client.isServed, Bool.and_eq_true, Function.comp_apply]
      exact and_iff_left_of_imp (hdone c hc)
    have hrequests : s.clients.map Client.request = requests := by
      refine (requests_run _ schedule).trans ?_
      rw [start, List.map_map]
      exact List.map_id _
    calc s.engine.cache.handedOut = s.clients.countP Client.isServed := h.served
      _ = (s.clients.map Client.request).countP Request.isCacheable := by
        rw [hserved, List.countP_map]
      _ = requests.countP Request.isCacheable := by rw [hrequests]

/-- Of two clients that compile at once, the one that publishes first also serves the other, and a
third. -/
theorem run_converges_above :
    let s := (start (.ofSettings .counting 0 ⟨⟨true, 0, none⟩, 1⟩)
      [.above 18, .above 65, .above 70]).run [0, 1, 0, 1, 1, 0, 2]
    s.published.map (fun kept => kept.2.serial) = [1, 0] ∧
    s.clients.map (fun c => c.entry?.map PlanEntry.serial) = [some 1, some 1, some 1] ∧
    s.engine.cache.entries ⊆ s.published ∧ s.engine.cache.stats = ⟨1, 2, 1, 1, 0⟩ ∧
    s.engine.cache.stats.hits + s.engine.cache.stats.inserts + s.engine.cache.stats.racesLost =
      [Request.above 18, .above 65, .above 70].countP Request.isCacheable := by
  have henabled : (⟨⟨true, 0, none⟩, 1⟩ : Settings).cache.enabled = true := rfl
  have hserved {clients : List (Client (List Slot))}
      (hall : clients.all (fun c => c.entry?.isSome) = true) :
      ∀ c ∈ clients, c.request.isCacheable = true → c.entry?.isSome = true :=
    fun c hc _ => List.all_eq_true.1 hall c hc
  obtain ⟨-, -, -, -, hsubset, -, hcount⟩ := run_converges .counting 0 henabled rfl
    [.above 18, .above 65, .above 70] [0, 1, 0, 1, 1, 0, 2]
  exact ⟨by decide +kernel, by decide +kernel, hsubset, by decide +kernel,
    hcount (hserved (by decide +kernel))⟩

end SharedEngine

end QueryPlans
