import QueryPlans.Proofs.Plan.Transparency
import QueryPlans.Proofs.Shape.Refusal

/-!
# Proofs/Shape/Paging — counts are found by navigation

A request and each of its expansions is a level that may be paged, and the navigation that leads to
a level says where its counts are found.  Levels are visited from the inside out, the request last
(`Request.levels`).  Several of them may have one navigation, when an expansion is repeated or its
path is written in one piece here and in nested pieces there; a look-up then gives the count of the
last such level that has one (`CountClause.lookUp_eq`).  A level alone with its navigation is given
just its own counts.
-/

namespace QueryPlans

open Piece

/-! ## Levels -/

/-- A collection that a request asks for, by the navigation that leads to it, with its counts. -/
structure PagedLevel where
  navigation : List String
  paging : Paging

namespace SelectItem

mutual

/-- The levels of an item in the order of visits: those of its items come before its own. -/
def levels (navigation : List String) : SelectItem → List PagedLevel
  | .wildcard | .property _ => []
  | .expand path clauses items =>
    let inner := navigation ++ path.segments
    levelsAll inner items ++ [⟨inner, clauses.paging⟩]

/-- The levels of several items. -/
def levelsAll (navigation : List String) : List SelectItem → List PagedLevel
  | [] => []
  | item :: rest => item.levels navigation ++ levelsAll navigation rest

end

theorem levelsAll_eq (navigation : List String) (items : List SelectItem) :
    levelsAll navigation items = items.flatMap (levels navigation) := by
  induction items with
  | nil => rfl
  | cons item rest ih => rw [levelsAll, ih, List.flatMap_cons]

end SelectItem

/-- **The levels of a request** in the order of visits, the request itself last. -/
def Request.levels (r : Request) : List PagedLevel :=
  SelectItem.levelsAll [] r.items ++ [⟨[], r.paging⟩]

namespace CountClause

/-- The count that is written in a clause. -/
def count? (clause : CountClause) (paging : Paging) : Option Int64 :=
  match clause.expr? paging with
  | some (.literal (.int n)) => some n
  | _ => none

/-- The count that arguments have for a clause of some level. -/
def lookUp (clause : CountClause) (args : Arguments) (navigation : List String) : Option Int64 :=
  match clause with
  | skip => args.skip? navigation
  | top => args.top? navigation
  | pageSize => args.pageSize? navigation

/-- The count of the last level with a navigation that has one. -/
def last? (clause : CountClause) (navigation : List String) (levels : List PagedLevel) :
    Option Int64 :=
  levels.reverse.findSome? fun level =>
    if level.navigation = navigation then clause.count? level.paging else none

end CountClause

/-- Whether literals of this origin are counts. -/
def SlotOrigin.isCount : SlotOrigin → Bool
  | skip _ | top _ | pageSize _ => true
  | key | filter _ | apply | orderBy _ | continuation _ => false

/-- The value of the last literal with an origin. -/
def lastLiteral? (origin : SlotOrigin) (literals : List (SlotOrigin × Scalar)) : Option Scalar :=
  literals.reverse.findSome? fun literal => if literal.1 = origin then some literal.2 else none

/-! ## The last of several -/

/-- What is found from behind is found in the later part first. -/
theorem findSome?_reverse_append {α β : Type} (f : α → Option β) (l l' : List α) :
    (l ++ l').reverse.findSome? f = (l'.reverse.findSome? f).or (l.reverse.findSome? f) := by
  rw [List.reverse_append, List.findSome?_append]

/-- A later literal of a place stands before an earlier one. -/
theorem lastLiteral?_append (origin : SlotOrigin) (l l' : List (SlotOrigin × Scalar)) :
    lastLiteral? origin (l ++ l') = (lastLiteral? origin l').or (lastLiteral? origin l) :=
  findSome?_reverse_append _ l l'

/-- Literals of another origin do not count. -/
theorem lastLiteral?_eq_none {origin : SlotOrigin} {literals : List (SlotOrigin × Scalar)}
    (h : ∀ literal ∈ literals, literal.1 ≠ origin) : lastLiteral? origin literals = none := by
  refine List.findSome?_eq_none_iff.2 fun literal hliteral => ?_
  exact if_neg (h literal (List.mem_reverse.1 hliteral))

/-- A look-up by origin finds the last literal that was pushed with it. -/
theorem Arguments.byOrigin?_eq {args : Arguments} {literals : List (SlotOrigin × Scalar)}
    (h : args.entries.map (fun a => (a.slot.origin, a.value)) = literals) {origin : SlotOrigin}
    (hkeyed : origin.isKeyed = true) : args.byOrigin? origin = lastLiteral? origin literals := by
  rw [byOrigin?, if_pos hkeyed, lastLiteral?, ← h, ← List.map_reverse]
  induction args.entries.reverse with
  | nil => rfl
  | cons a rest ih =>
    rw [List.find?_cons, List.map_cons, List.findSome?_cons, ← ih]
    by_cases ha : a.slot.origin = origin
    · simp [ha]
    · have hbeq : (a.slot.origin == origin) = false := beq_eq_false_iff_ne.2 ha
      simp [ha, hbeq]

/-! ## Levels of well-formed requests -/

/-- The levels of an item are its expansions, in another order. -/
theorem SelectItem.exists_expansion {navigation : List String} {item : SelectItem}
    {level : PagedLevel} (h : level ∈ item.levels navigation) :
    ∃ clauses ∈ item.expansions, clauses.paging = level.paging := by
  induction item generalizing navigation with
  | wildcard => cases h
  | property path => cases h
  | expand path clauses items ih =>
    rw [levels] at h
    rw [expansions, expansionsAll_eq]
    rcases List.mem_append.1 h with h | h
    · rw [levelsAll_eq] at h
      obtain ⟨item, hitem, h⟩ := List.mem_flatMap.1 h
      obtain ⟨inner, hinner, hpaging⟩ := ih item hitem h
      exact ⟨inner, List.mem_cons_of_mem _ (List.mem_flatMap.2 ⟨item, hitem, hinner⟩), hpaging⟩
    · cases List.mem_singleton.1 h
      exact ⟨clauses, List.mem_cons_self, rfl⟩

/-- All counts of a well-formed request are natural numbers, at each of its levels. -/
theorem Request.IsWellFormed.natural {r : Request} (h : r.IsWellFormed) :
    ∀ level ∈ r.levels, level.paging.IsNatural := by
  rw [levels]
  refine List.forall_mem_append.2 ⟨fun level hlevel => ?_, List.forall_mem_singleton.2 h.paging⟩
  rw [SelectItem.levelsAll_eq] at hlevel
  obtain ⟨item, hitem, hlevel⟩ := List.mem_flatMap.1 hlevel
  obtain ⟨clauses, hclauses, hpaging⟩ := SelectItem.exists_expansion hlevel
  have hmem : clauses ∈ SelectItem.expansionsAll r.items := by
    rw [SelectItem.expansionsAll_eq]
    exact List.mem_flatMap.2 ⟨item, hitem, hclauses⟩
  exact hpaging ▸ (h.items clauses hmem).paging

/-- **The counts of a request are natural numbers** once it is taken apart. -/
theorem Request.natural_of_normalizeWith {hash : ByteHash} {r : Request} {n : Normalized}
    (h : r.normalizeWith hash = .ok n) : ∀ level ∈ r.levels, level.paging.IsNatural :=
  (isWellFormed_of_normalizeWith h).natural

/-! ## What is found -/

namespace CountClause

variable {paging : Paging} {navigation navigation' : List String}

/-- A count is kept by its place, so it can be looked up. -/
theorem isKeyed_origin (clause : CountClause) (navigation : List String) :
    (clause.origin navigation).isKeyed = true := by
  cases clause <;> rfl

theorem isCount_origin (clause : CountClause) (navigation : List String) :
    (clause.origin navigation).isCount = true := by
  cases clause <;> rfl

/-- The place of a count tells its clause and its navigation. -/
theorem origin_eq_iff {clause clause' : CountClause} :
    clause.origin navigation = clause'.origin navigation' ↔
      clause = clause' ∧ navigation = navigation' := by
  cases clause <;> cases clause' <;> simp [origin]

/-- What is no count does not matter. -/
theorem lastLiteral?_of_not_isCount {literals : List (SlotOrigin × Scalar)}
    (h : ∀ literal ∈ literals, literal.1.isCount = false) (clause : CountClause)
    (navigation : List String) : lastLiteral? (clause.origin navigation) literals = none := by
  refine lastLiteral?_eq_none fun literal hliteral horigin => ?_
  have hcount := h literal hliteral
  rw [horigin, isCount_origin] at hcount
  cases hcount

/-- Literals of an expression are in the place of no count. -/
theorem lastLiteral?_literalsAt_of_not_isCount {α : Type} [Piece α] (origin : SlotOrigin)
    (h : origin.isCount = false) (a : α) (clause : CountClause) (navigation : List String) :
    lastLiteral? (clause.origin navigation) (literalsAt origin a) = none := by
  refine lastLiteral?_of_not_isCount (fun literal hliteral => ?_) clause navigation
  obtain ⟨v, -, rfl⟩ := List.mem_map.1 hliteral
  exact h

/-- The literal of a clause is its count. -/
theorem lastLiteral?_clause (hnatural : paging.IsNatural) (clause clause' : CountClause) :
    lastLiteral? (clause.origin navigation) (literalsAt (clause'.origin navigation')
      (clause'.expr? paging)) =
        if clause' = clause ∧ navigation' = navigation then (clause.count? paging).map .int
        else none := by
  split
  · next hsame =>
    obtain ⟨rfl, rfl⟩ := hsame
    cases he : clause'.expr? paging with
    | none => simp [count?, he, literalsAt, leaves, lastLiteral?]
    | some e =>
      obtain ⟨n, -, rfl⟩ := hnatural clause' e he
      simp [count?, he, literalsAt, leaves, Expr.leaves, lastLiteral?, Leaf.literal?]
  · next hother =>
    refine lastLiteral?_eq_none fun literal hliteral => ?_
    obtain ⟨v, -, rfl⟩ := List.mem_map.1 hliteral
    exact mt origin_eq_iff.1 hother

/-- A later level of a navigation stands before an earlier one. -/
theorem last?_append (clause : CountClause) (navigation : List String) (l l' : List PagedLevel) :
    clause.last? navigation (l ++ l') =
      (clause.last? navigation l').or (clause.last? navigation l) :=
  findSome?_reverse_append _ l l'

/-- One level has counts at its own navigation alone. -/
theorem last?_singleton (clause : CountClause) (navigation : List String) (level : PagedLevel) :
    clause.last? navigation [level] =
      if level.navigation = navigation then clause.count? level.paging else none := by
  rw [last?, List.reverse_singleton, List.findSome?_singleton]

/-- Only its own clause of a level counts. -/
theorem lastLiteral?_paging (hnatural : paging.IsNatural) (clause : CountClause)
    (navigation navigation' : List String) :
    ((lastLiteral? (clause.origin navigation)
        (literalsAt (.pageSize navigation') paging.pageSize)).or
      ((lastLiteral? (clause.origin navigation) (literalsAt (.top navigation') paging.top)).or
        (lastLiteral? (clause.origin navigation) (literalsAt (.skip navigation') paging.skip)))) =
      (if navigation' = navigation then clause.count? paging else none).map .int := by
  have hskip : lastLiteral? (clause.origin navigation)
      (literalsAt (.skip navigation') paging.skip) = _ := lastLiteral?_clause hnatural clause .skip
  have htop : lastLiteral? (clause.origin navigation)
      (literalsAt (.top navigation') paging.top) = _ := lastLiteral?_clause hnatural clause .top
  have hpageSize : lastLiteral? (clause.origin navigation)
      (literalsAt (.pageSize navigation') paging.pageSize) = _ :=
    lastLiteral?_clause hnatural clause .pageSize
  rw [hskip, htop, hpageSize]
  by_cases hsame : navigation' = navigation
  · cases clause <;> simp [hsame]
  · simp [hsame]

end CountClause

namespace SelectItem

variable {navigation : List String} {items : List SelectItem} {clause : CountClause}
  {target : List String}

/-- The items of an expansion are visited in order, as their levels are. -/
theorem lastLiteral?_literalsAll
    (h : ∀ item ∈ items, lastLiteral? (clause.origin target) (item.literals navigation) =
      (clause.last? target (item.levels navigation)).map .int) :
    lastLiteral? (clause.origin target) (literalsAll navigation items) =
      (clause.last? target (levelsAll navigation items)).map .int := by
  induction items with
  | nil => rfl
  | cons item rest ih =>
    obtain ⟨hitem, hrest⟩ := List.forall_mem_cons.1 h
    rw [literalsAll, levelsAll, lastLiteral?_append, CountClause.last?_append, Option.map_or,
      hitem, ih hrest]

/-- **Within an item**, the last literal of a count is the count of the last level. -/
theorem lastLiteral?_literals (clause : CountClause) (target : List String) {item : SelectItem}
    (hnatural : ∀ level ∈ item.levels navigation, level.paging.IsNatural) :
    lastLiteral? (clause.origin target) (item.literals navigation) =
      (clause.last? target (item.levels navigation)).map .int := by
  induction item generalizing navigation with
  | wildcard => rfl
  | property path => rfl
  | expand path clauses items ih =>
    rw [levels] at hnatural ⊢
    rw [literals]
    generalize navigation ++ path.segments = inner at hnatural ⊢
    obtain ⟨hitems, hown⟩ := List.forall_mem_append.1 hnatural
    rw [levelsAll_eq] at hitems
    have hinner := lastLiteral?_literalsAll fun item hitem => ih item hitem fun level hlevel =>
      hitems level (List.mem_flatMap.2 ⟨item, hitem, hlevel⟩)
    have hpaging := CountClause.lastLiteral?_paging
      (hown ⟨inner, clauses.paging⟩ (List.mem_singleton_self _)) clause target inner
    have hother {α : Type} [Piece α] (origin : SlotOrigin) (h : origin.isCount = false) (a : α) :=
      CountClause.lastLiteral?_literalsAt_of_not_isCount origin h a clause target
    rw [CountClause.last?_append, CountClause.last?_singleton, Option.map_or, ← hpaging, ← hinner]
    simp only [lastLiteral?_append, hother (.filter inner) rfl, hother (.orderBy inner) rfl,
      Option.or_none, Option.or_assoc]

end SelectItem

namespace Request

variable {r : Request}

/-- **Within a request**, the last literal of a count is the count of the last level. -/
theorem lastLiteral?_literals (clause : CountClause) (target : List String)
    (hnatural : ∀ level ∈ r.levels, level.paging.IsNatural) :
    lastLiteral? (clause.origin target) r.literals = (clause.last? target r.levels).map .int := by
  obtain ⟨hitems, hown⟩ := List.forall_mem_append.1 hnatural
  rw [SelectItem.levelsAll_eq] at hitems
  have hinner := SelectItem.lastLiteral?_literalsAll fun item hitem =>
    SelectItem.lastLiteral?_literals clause target fun level hlevel =>
      hitems level (List.mem_flatMap.2 ⟨item, hitem, hlevel⟩)
  have hpaging := CountClause.lastLiteral?_paging
    (hown ⟨[], r.paging⟩ (List.mem_singleton_self _)) clause target []
  have hother {α : Type} [Piece α] (origin : SlotOrigin) (h : origin.isCount = false) (a : α) :=
    CountClause.lastLiteral?_literalsAt_of_not_isCount origin h a clause target
  have hcontinuation : lastLiteral? (clause.origin target)
      (r.continuation.elim [] continuationLiterals) = none := by
    refine CountClause.lastLiteral?_of_not_isCount (fun literal hliteral => ?_) clause target
    cases hvalues : r.continuation with
    | none =>
      rw [hvalues] at hliteral
      cases hliteral
    | some values =>
      rw [hvalues] at hliteral
      obtain ⟨value, -, hliteral⟩ := List.mem_flatMap.1 hliteral
      obtain ⟨v, -, rfl⟩ := List.mem_map.1 hliteral
      rfl
  rw [levels, CountClause.last?_append, CountClause.last?_singleton, Option.map_or, ← hpaging,
    ← hinner, literals]
  simp only [lastLiteral?_append, hother .key rfl, hother (.filter []) rfl, hother .apply rfl,
    hother (.orderBy []) rfl, hcontinuation, Option.or_none, Option.none_or, Option.or_assoc]

end Request

namespace CountClause

variable {r : Request} {n : Normalized}

/-- A look-up reads the last parameter of the place, as a number. -/
theorem lookUp_eq_byOrigin? (clause : CountClause) (args : Arguments) (navigation : List String) :
    clause.lookUp args navigation =
      (args.byOrigin? (clause.origin navigation)).bind Scalar.int? := by
  cases clause <;> rfl

/-- **A look-up gives the count of the last level** with the navigation that has one. -/
theorem lookUp_eq (h : r.normalize = .ok n) (clause : CountClause) (navigation : List String) :
    clause.lookUp n.arguments navigation = clause.last? navigation r.levels := by
  have hnatural := Request.natural_of_normalizeWith h
  rw [lookUp_eq_byOrigin?,
    Arguments.byOrigin?_eq (Request.map_entries_of_normalizeWith h) (isKeyed_origin _ _),
    Request.lastLiteral?_literals clause navigation hnatural]
  cases clause.last? navigation r.levels <;> rfl

/-- Levels with other navigations do not matter. -/
theorem last?_eq_none {clause : CountClause} {navigation : List String} {levels : List PagedLevel}
    (h : ∀ level ∈ levels, level.navigation ≠ navigation) :
    clause.last? navigation levels = none := by
  refine List.findSome?_eq_none_iff.2 fun level hlevel => ?_
  exact if_neg (h level (List.mem_reverse.1 hlevel))

/-- **A level alone with its navigation is given its own counts.** -/
theorem lookUp_of_alone (h : r.normalize = .ok n) (clause : CountClause)
    {before after : List PagedLevel} {level : PagedLevel}
    (hlevels : r.levels = before ++ level :: after)
    (halone : ∀ other ∈ before ++ after, other.navigation ≠ level.navigation) :
    clause.lookUp n.arguments level.navigation = clause.count? level.paging := by
  obtain ⟨hbefore, hafter⟩ := List.forall_mem_append.1 halone
  rw [lookUp_eq h, hlevels, ← List.singleton_append, last?_append, last?_append, last?_singleton,
    if_pos rfl, last?_eq_none hbefore, last?_eq_none hafter, Option.none_or, Option.or_none]

end CountClause

/-! ## The page size of what is prepared -/

theorem Paging.IsNatural.nonneg {paging : Paging} (h : paging.IsNatural) {clause : CountClause}
    {k : Int64} (hk : clause.count? paging = some k) : 0 ≤ k := by
  rw [CountClause.count?] at hk
  split at hk
  · next n he =>
    obtain ⟨n', hn', hexpr⟩ := h clause _ he
    cases hk
    cases hexpr
    exact hn'
  · cases hk

/-- A clause that is written has a count, for it is a natural number. -/
theorem Paging.IsNatural.isSome_count? {paging : Paging} (h : paging.IsNatural)
    (clause : CountClause) : (clause.count? paging).isSome = (clause.expr? paging).isSome := by
  cases he : clause.expr? paging with
  | none => simp [CountClause.count?, he]
  | some e =>
    obtain ⟨n, -, rfl⟩ := h clause e he
    simp [CountClause.count?, he]

variable {σ P : Type} {r : Request} {n : Normalized} {p : Prepared P}

/-- What is prepared has the arguments of its own request. -/
theorem Engine.arguments_of_prepare {e : Engine σ P} (hn : r.normalize = .ok n)
    (h : (e.prepare r).1 = .ok p) : p.arguments = n.arguments := by
  rw [prepare, normalize, hn] at h
  rcases hobtain : (e.record fun p => { p with normalized := p.normalized + 1 }).obtain n with
    ⟨error | ⟨entry, hit⟩, e'⟩
  · simp only [hobtain] at h
    cases h
  · simp only [hobtain] at h
    cases h
    rfl

/-- **The request's own page size** limits what is prepared, if it has one or no expansion stands
in its place. -/
theorem Prepared.pageSize?_eq (hn : r.normalize = .ok n) (harguments : p.arguments = n.arguments)
    (hown : r.paging.pageSize.isSome = true ∨
      ∀ level ∈ SelectItem.levelsAll [] r.items, level.navigation ≠ []) :
    p.pageSize? = (CountClause.pageSize.count? r.paging).map fun k => k.toInt.toNat := by
  have hnatural := Request.natural_of_normalizeWith hn ⟨[], r.paging⟩
    (List.mem_append_right _ (List.mem_singleton_self _))
  have hlast : CountClause.pageSize.last? [] r.levels = CountClause.pageSize.count? r.paging := by
    rw [Request.levels, CountClause.last?_append, CountClause.last?_singleton, if_pos rfl]
    rcases hown with hown | hnamed
    · exact Option.or_of_isSome ((hnatural.isSome_count? .pageSize).trans hown)
    · rw [CountClause.last?_eq_none hnamed, Option.or_none]
  have hlookUp : n.arguments.pageSize? [] = CountClause.pageSize.count? r.paging :=
    (CountClause.lookUp_eq hn .pageSize []).trans hlast
  rw [pageSize?, harguments, hlookUp]
  cases hcount : CountClause.pageSize.count? r.paging with
  | none => rfl
  | some k => exact if_neg (Int64.not_lt.2 (hnatural.nonneg hcount))

/-! ## All of it -/

/-- **Counts are found by navigation.**  Once a request is taken apart, all its counts are natural
numbers; each look-up gives the count of the last level with the navigation that has one, and for a
level alone with its navigation just what is written there.  What is prepared is limited by the page
size of the request itself, if it has one or no expansion is without a path. -/
theorem Request.counts_found (hn : r.normalize = .ok n) :
    (∀ level ∈ r.levels, level.paging.IsNatural) ∧
    (∀ (clause : CountClause) navigation,
      clause.lookUp n.arguments navigation = clause.last? navigation r.levels) ∧
    (∀ (clause : CountClause) before level after, r.levels = before ++ level :: after →
      (∀ other ∈ before ++ after, other.navigation ≠ level.navigation) →
      clause.lookUp n.arguments level.navigation = clause.count? level.paging) ∧
    (∀ (e : Engine σ P) p, (e.prepare r).1 = .ok p →
      (r.paging.pageSize.isSome = true ∨
        ∀ level ∈ SelectItem.levelsAll [] r.items, level.navigation ≠ []) →
      p.pageSize? = (CountClause.pageSize.count? r.paging).map fun k => k.toInt.toNat) :=
  ⟨natural_of_normalizeWith hn, CountClause.lookUp_eq hn,
    fun clause _ _ _ hlevels halone => CountClause.lookUp_of_alone hn clause hlevels halone,
    fun _ _ hp hown => Prepared.pageSize?_eq hn (Engine.arguments_of_prepare hn hp) hown⟩

/-- A page of customers, with three of their orders and, in another expansion, with five. -/
def Request.ordersTwice : Request :=
  let orders (top : Int64) : SelectItem := .expand ⟨["Orders"]⟩
    { ExpandClauses.plain with paging := ⟨none, some (.literal (.int top)), none⟩ } []
  { Request.empty with
    path := [.entitySet "Customers"]
    items := [orders 3, orders 5]
    paging := ⟨none, none, some (.literal (.int 20))⟩ }

/-- Orders are expanded twice: the count of the second expansion is found. -/
theorem Request.counts_found_ordersTwice :
    ∃ n p, ordersTwice.normalize = .ok n ∧
      ((Engine.ofSettings .counting 0 .default).prepare ordersTwice).1 = .ok p ∧
      CountClause.top.lookUp n.arguments ["Orders"] = some 5 ∧
      CountClause.skip.lookUp n.arguments [] = none ∧ p.pageSize? = some 20 := by
  obtain ⟨n, hn⟩ : ∃ n, ordersTwice.normalize = .ok n := ⟨_, rfl⟩
  obtain ⟨p, hp⟩ : ∃ p, ((Engine.ofSettings .counting 0 .default).prepare ordersTwice).1 = .ok p :=
    ⟨_, rfl⟩
  obtain ⟨-, hlookUp, -, hpageSize⟩ := counts_found hn
  refine ⟨n, p, hn, hp, (hlookUp .top ["Orders"]).trans (by decide +kernel),
    (hlookUp .skip []).trans (by decide +kernel), ?_⟩
  exact (hpageSize _ p hp (.inl rfl)).trans (by decide +kernel)

/-- The first of two expansions of one path is not given its own count. -/
theorem Request.ordersTwice_not_found :
    ¬∀ (r : Request) n, r.normalize = .ok n → ∀ level ∈ r.levels, ∀ clause : CountClause,
      clause.lookUp n.arguments level.navigation = clause.count? level.paging := by
  intro h
  obtain ⟨n, hn⟩ : ∃ n, ordersTwice.normalize = .ok n := ⟨_, rfl⟩
  have hfirst := h ordersTwice n hn ⟨["Orders"], ⟨none, some (.literal (.int 3)), none⟩⟩
    List.mem_cons_self .top
  rw [CountClause.lookUp_eq hn] at hfirst
  have hlast : CountClause.top.last? ["Orders"] ordersTwice.levels = some 5 := by decide +kernel
  cases hlast.symm.trans hfirst

end QueryPlans
