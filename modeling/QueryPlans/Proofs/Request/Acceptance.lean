import QueryPlans.Proofs.Request.Building
import QueryPlans.Proofs.Shape.Extraction
import QueryPlans.Proofs.Shape.Refusal

/-!
# Proofs/Request/Acceptance — what a program builds can be taken apart

The steps of a program see to counts and continuations, so a request that is built has natural
counts and a continuation whose values stand alone, however often a clause was set anew and at any
depth of expansions (`Request.HasLimits`).  All else that could be refused is a parameter that a
step passed on.  So a request that is built is well-formed just when no step passes one on
(`Request.isWellFormed_of_build`), and then it is taken apart into one value for each of its
literals (`Request.normalizes_iff_of_build`).
-/

namespace QueryPlans

open Piece

/-! ## Steps that pass on no parameters -/

mutual

/-- Whether no expression of a step has a parameter, nor one of the steps within it. -/
def ExpandStep.IsParameterFree : ExpandStep → Prop
  | .filter condition => HasNoParameters condition
  | .expand _ steps => ExpandStep.AreParameterFree steps
  | .orderBy key _ => HasNoParameters key
  | .select _ | .skip _ | .top _ | .pageSize _ | .count | .levels _ => True

/-- No step of a program within an expansion passes a parameter. -/
def ExpandStep.AreParameterFree : List ExpandStep → Prop
  | [] => True
  | step :: rest => step.IsParameterFree ∧ ExpandStep.AreParameterFree rest

end

/-- A program is free of parameters if each of its steps is. -/
theorem ExpandStep.areParameterFree_iff {steps : List ExpandStep} :
    AreParameterFree steps ↔ ∀ step ∈ steps, step.IsParameterFree := by
  induction steps with
  | nil => exact iff_of_true trivial (List.forall_mem_nil _)
  | cons step rest ih => rw [AreParameterFree, ih, List.forall_mem_cons]

/-- Whether no expression, transformation or segment that a step passes on has a parameter, at any
depth.  An item made elsewhere also brings counts of its own, which have to be natural numbers. -/
def RequestStep.IsParameterFree : RequestStep → Prop
  | .segment s => HasNoParameters s
  | .filter condition => HasNoParameters condition
  | .apply step => HasNoParameters step
  | .item i => ∀ clauses ∈ i.expansions, clauses.IsWellFormed
  | .expand _ steps => ∀ step ∈ steps, step.IsParameterFree
  | .orderBy e _ => HasNoParameters e
  | .entitySet _ | .key _ | .navigate _ | .select _ | .skip _ | .top _ | .pageSize _ | .count
  | .resume _ => True

/-! ## Parameters of what is put together -/

section

variable {α β γ : Type} [Piece α] [Piece β] [Piece γ]

/-- What has no leaves has no parameters. -/
theorem hasNoParameters_of_leaves_eq_nil {a : α} (h : leaves a = []) : HasNoParameters a := by
  simp [HasNoParameters, h]

/-- A construct of two pieces has no parameters if neither has. -/
theorem hasNoParameters_of_leaves_append {a : α} {b : β} {c : γ}
    (h : leaves a = leaves b ++ leaves c) :
    HasNoParameters a ↔ HasNoParameters b ∧ HasNoParameters c := by
  simp [HasNoParameters, h, forall_and]

@[simp] theorem hasNoParameters_append {as bs : List α} :
    HasNoParameters (as ++ bs) ↔ HasNoParameters as ∧ HasNoParameters bs :=
  hasNoParameters_of_leaves_append List.flatMap_append

@[simp] theorem hasNoParameters_singleton {a : α} : HasNoParameters [a] ↔ HasNoParameters a := by
  have hleaves : leaves [a] = leaves a := List.flatMap_singleton leaves a
  rw [HasNoParameters, HasNoParameters, hleaves]

@[simp] theorem hasNoParameters_nil : HasNoParameters ([] : List α) :=
  hasNoParameters_of_leaves_eq_nil rfl

@[simp] theorem hasNoParameters_none : HasNoParameters (none : Option α) :=
  hasNoParameters_of_leaves_eq_nil rfl

end

@[simp] theorem hasNoParameters_conjoin {filter : Option Expr} {condition : Expr} :
    HasNoParameters (conjoin filter condition) ↔
      HasNoParameters filter ∧ HasNoParameters condition := by
  cases filter with
  | none => exact hasNoParameters_of_leaves_append (b := (none : Option Expr)) rfl
  | some former => exact hasNoParameters_of_leaves_append (b := some former) rfl

@[simp] theorem hasNoParameters_orderItem {key : Expr} {direction : Direction} :
    HasNoParameters (OrderItem.mk key direction) ↔ HasNoParameters key :=
  Iff.rfl

/-- The values of a key that a step gives are literals. -/
theorem hasNoParameters_key (parts : List (String × Scalar)) :
    HasNoParameters (Segment.key (parts.map fun (name, value) => (name, .literal value))) := by
  intro slot hslot
  obtain ⟨part, hpart, hleaf⟩ := List.mem_flatMap.1 hslot
  obtain ⟨⟨name, value⟩, -, rfl⟩ := List.mem_map.1 hpart
  cases List.mem_singleton.1 hleaf

/-! ## Counts -/

/-- A step that sets a count succeeds exactly on natural numbers, and sets what was given. -/
theorem bind_countLiteral_eq_ok {α : Type} {fault : BuildError} {n : Int64} {set : Expr → α}
    {a : α} : (do let count ← countLiteral fault n; .ok (set count)) = .ok a ↔
      0 ≤ n ∧ set (.literal (.int n)) = a := by
  rw [countLiteral]
  split
  case isTrue hn => exact iff_of_false nofun fun h => Int64.not_le.2 hn h.1
  case isFalse hn => simp [Int64.not_lt.1 hn]

namespace Paging

theorem isNatural_unlimited : unlimited.IsNatural := by
  intro clause e he
  cases clause <;> cases he

/-- Counts that are set anew are natural numbers if the new ones are. -/
theorem IsNatural.set {paging paging' : Paging} {n : Int64} (h : paging.IsNatural) (hn : 0 ≤ n)
    (hset : ∀ clause, CountClause.expr? paging' clause = CountClause.expr? paging clause ∨
      CountClause.expr? paging' clause = some (.literal (.int n))) : paging'.IsNatural := by
  intro clause e he
  rcases hset clause with hsame | hnew
  · exact h clause e (hsame ▸ he)
  · cases hnew.symm.trans he
    exact ⟨n, hn, rfl⟩

variable {paging : Paging} {n : Int64}

theorem IsNatural.setSkip (h : paging.IsNatural) (hn : 0 ≤ n) :
    { paging with skip := some (.literal (.int n)) }.IsNatural :=
  h.set hn fun clause => by cases clause <;> simp [CountClause.expr?]

theorem IsNatural.setTop (h : paging.IsNatural) (hn : 0 ≤ n) :
    { paging with top := some (.literal (.int n)) }.IsNatural :=
  h.set hn fun clause => by cases clause <;> simp [CountClause.expr?]

theorem IsNatural.setPageSize (h : paging.IsNatural) (hn : 0 ≤ n) :
    { paging with pageSize := some (.literal (.int n)) }.IsNatural :=
  h.set hn fun clause => by cases clause <;> simp [CountClause.expr?]

end Paging

/-! ## Items -/

/-- Whether all expansions among some items are well-formed, at any depth. -/
def AreWellFormed (items : List SelectItem) : Prop :=
  ∀ clauses ∈ SelectItem.expansionsAll items, clauses.IsWellFormed

@[simp] theorem areWellFormed_append {items more : List SelectItem} :
    AreWellFormed (items ++ more) ↔ AreWellFormed items ∧ AreWellFormed more := by
  simp only [AreWellFormed, SelectItem.expansionsAll_eq, List.flatMap_append,
    List.forall_mem_append]

@[simp] theorem areWellFormed_singleton {item : SelectItem} :
    AreWellFormed [item] ↔ ∀ clauses ∈ item.expansions, clauses.IsWellFormed := by
  simp only [AreWellFormed, SelectItem.expansionsAll_eq, List.flatMap_singleton]

@[simp] theorem areWellFormed_properties (paths : List PropertyPath) :
    AreWellFormed (paths.map .property) := by
  simp [AreWellFormed, SelectItem.expansionsAll_eq, List.flatMap_map, SelectItem.expansions]

/-! ## Expansions -/

/-- Whether an expansion has no parameters.  The items within are well-formed throughout. -/
def Expansion.IsParameterFree (x : Expansion) : Prop :=
  HasNoParameters x.clauses.filter ∧ HasNoParameters x.clauses.orderBy ∧ AreWellFormed x.items

/-- An expansion without steps has no place for a parameter. -/
theorem Expansion.isParameterFree_empty : Expansion.empty.IsParameterFree :=
  ⟨hasNoParameters_none, hasNoParameters_nil, List.forall_mem_nil _⟩

/-- An item is well-formed if the expansion that it is made of has no parameters. -/
theorem expandItem_eq_ok {navigation : PropertyPath} {inner : Except BuildError Expansion}
    {item : SelectItem} (h : expandItem navigation inner = .ok item) :
    ∃ x, inner = .ok x ∧ (x.clauses.paging.IsNatural →
      ((∀ clauses ∈ item.expansions, clauses.IsWellFormed) ↔ x.IsParameterFree)) := by
  rw [expandItem] at h
  split at h
  case isTrue => cases h
  case isFalse =>
    cases inner with
    | error e => cases h
    | ok x =>
      cases h
      refine ⟨x, rfl, fun hx => ?_⟩
      rw [SelectItem.expansions, List.forall_mem_cons]
      constructor
      · rintro ⟨hclauses, hitems⟩
        exact ⟨hclauses.filter, hclauses.orderBy, hitems⟩
      · rintro ⟨hfilter, horderBy, hitems⟩
        exact ⟨⟨hfilter, horderBy, hx⟩, hitems⟩

namespace ExpandStep

/-- What a run that succeeds makes of an expansion with natural counts: they stay natural, and
`free` is all that it takes to be without parameters as before. -/
def Passes (run : Expansion → Except BuildError Expansion) (free : Prop) : Prop :=
  ∀ x y, x.clauses.paging.IsNatural → run x = .ok y →
    y.clauses.paging.IsNatural ∧ (y.IsParameterFree ↔ x.IsParameterFree ∧ free)

/-- Steps within an expansion are passed on one after the other, and none takes a parameter out. -/
theorem passes_runAll {steps : List ExpandStep}
    (h : ∀ step ∈ steps, Passes step.run step.IsParameterFree) :
    Passes (runAll steps) (∀ step ∈ steps, step.IsParameterFree) := by
  induction steps with
  | nil =>
    intro x y hx hrun
    cases hrun
    exact ⟨hx, (and_iff_left (List.forall_mem_nil _)).symm⟩
  | cons step rest ih =>
    rw [List.forall_mem_cons] at h
    intro x y hx hrun
    obtain ⟨x', hstep, hrest⟩ := bind_eq_ok_iff.1 hrun
    obtain ⟨hx', hfree⟩ := h.1 x x' hx hstep
    obtain ⟨hy, hfree'⟩ := ih h.2 x' y hx' hrest
    exact ⟨hy, by rw [hfree', hfree, List.forall_mem_cons, and_assoc]⟩

/-- The item of a program is well-formed just when no step of it passes on a parameter. -/
theorem wellFormed_of_expandItem {navigation : PropertyPath} {steps : List ExpandStep}
    {item : SelectItem} (hsteps : ∀ step ∈ steps, Passes step.run step.IsParameterFree)
    (h : expandItem navigation (runAll steps .empty) = .ok item) :
    (∀ clauses ∈ item.expansions, clauses.IsWellFormed) ↔
      ∀ step ∈ steps, step.IsParameterFree := by
  obtain ⟨inner, hinner, hitem⟩ := expandItem_eq_ok h
  obtain ⟨hcounts, hfree⟩ := passes_runAll hsteps .empty inner Paging.isNatural_unlimited hinner
  rw [hitem hcounts, hfree, and_iff_right Expansion.isParameterFree_empty]

/-- **A step of an expansion sees to its counts**, and passes on nothing but its own parameters. -/
theorem passes_run (step : ExpandStep) : Passes step.run step.IsParameterFree := by
  induction step using ExpandStep.induct with
  | filter condition =>
    rintro x _ hx ⟨⟩
    exact ⟨hx, by simp only [Expansion.IsParameterFree, hasNoParameters_conjoin,
      IsParameterFree]; tauto⟩
  | select paths =>
    rintro x _ hx ⟨⟩
    exact ⟨hx, by simp [Expansion.IsParameterFree, Expansion.addItems, IsParameterFree]⟩
  | expand navigation steps ih =>
    intro x y hx h
    obtain ⟨item, hitem, ⟨⟩⟩ := bind_eq_ok_iff.1 h
    have hfree := wellFormed_of_expandItem ih hitem
    exact ⟨hx, by simp only [Expansion.IsParameterFree, Expansion.addItems, areWellFormed_append,
      areWellFormed_singleton, hfree, IsParameterFree, areParameterFree_iff, and_assoc]⟩
  | orderBy key direction =>
    rintro x _ hx ⟨⟩
    exact ⟨hx, by simp only [Expansion.IsParameterFree, hasNoParameters_append,
      hasNoParameters_singleton, hasNoParameters_orderItem, IsParameterFree]; tauto⟩
  | skip n =>
    intro x y hx h
    obtain ⟨hn, rfl⟩ := bind_countLiteral_eq_ok.1 h
    exact ⟨hx.setSkip hn, (and_iff_left trivial).symm⟩
  | top n =>
    intro x y hx h
    obtain ⟨hn, rfl⟩ := bind_countLiteral_eq_ok.1 h
    exact ⟨hx.setTop hn, (and_iff_left trivial).symm⟩
  | pageSize n =>
    intro x y hx h
    obtain ⟨hn, rfl⟩ := bind_countLiteral_eq_ok.1 h
    exact ⟨hx.setPageSize hn, (and_iff_left trivial).symm⟩
  | count =>
    rintro x _ hx ⟨⟩
    exact ⟨hx, (and_iff_left trivial).symm⟩
  | levels n =>
    rintro x _ hx ⟨⟩
    exact ⟨hx, (and_iff_left trivial).symm⟩

end ExpandStep

/-! ## Requests -/

/-- A continuation is written as literals, each of which stands alone. -/
theorem Continuation.isContinuation_clause {c : Continuation} (h : c.values.isEmpty = false) :
    IsContinuation c.clause := by
  refine ⟨?_, fun value hvalue => ?_⟩
  · rw [clause, ne_eq, List.map_eq_nil_iff]
    exact List.isEmpty_eq_false_iff.1 h
  · obtain ⟨⟨property, v⟩, -, rfl⟩ := List.mem_map.1 hvalue
    exact .inl ⟨v, rfl⟩

namespace Request

/-- What the steps of a program see to. -/
structure HasLimits (r : Request) : Prop where
  paging : r.paging.IsNatural
  continuation : ∀ values, r.continuation = some values → IsContinuation values

/-- Whether a request has no parameters.  The items are well-formed throughout. -/
def IsParameterFree (r : Request) : Prop :=
  HasNoParameters r.path ∧ HasNoParameters r.filter ∧ HasNoParameters r.apply ∧
    AreWellFormed r.items ∧ HasNoParameters r.orderBy

theorem hasLimits_empty : empty.HasLimits := ⟨Paging.isNatural_unlimited, nofun⟩

theorem isParameterFree_empty : empty.IsParameterFree :=
  ⟨hasNoParameters_nil, hasNoParameters_none, hasNoParameters_nil, List.forall_mem_nil _,
    hasNoParameters_nil⟩

/-- **With its limits in order, a request is well-formed exactly if it has no parameter.** -/
theorem HasLimits.isWellFormed_iff {r : Request} (h : r.HasLimits) :
    r.IsWellFormed ↔ r.IsParameterFree := by
  constructor
  · intro hr
    exact ⟨hr.path, hr.filter, hr.apply, hr.items, hr.orderBy⟩
  · rintro ⟨hpath, hfilter, happly, hitems, horderBy⟩
    exact ⟨hpath, hfilter, happly, hitems, horderBy, h.paging, h.continuation⟩

/-- What a step makes of a request with limits: it still has them, and `free` is all that it takes
to be without parameters as before. -/
def Passes (r : Request) (free : Prop) (r' : Request) : Prop :=
  r'.HasLimits ∧ (r'.IsParameterFree ↔ r.IsParameterFree ∧ free)

section

variable {r r' : Request}

/-- Steps may be described in other words. -/
theorem Passes.congr {free free' : Prop} (h : r.Passes free r') (hfree : free ↔ free') :
    r.Passes free' r' :=
  ⟨h.1, h.2.trans (and_congr_right' hfree)⟩

/-- Another segment leaves the limits alone. -/
theorem HasLimits.addSegment (h : r.HasLimits) (segment : Segment) :
    r.Passes (HasNoParameters segment) (r.addSegment segment) := by
  refine ⟨⟨h.paging, h.continuation⟩, ?_⟩
  simp only [IsParameterFree, Request.addSegment, hasNoParameters_append,
    hasNoParameters_singleton]
  tauto

/-- So do other items, which must have limits of their own. -/
theorem HasLimits.addItems (h : r.HasLimits) (items : List SelectItem) :
    r.Passes (AreWellFormed items) (r.addItems items) := by
  refine ⟨⟨h.paging, h.continuation⟩, ?_⟩
  simp only [IsParameterFree, Request.addItems, areWellFormed_append]
  tauto

/-- The counts themselves have no place for a parameter, being checked as numbers. -/
theorem HasLimits.setPaging (h : r.HasLimits) {paging : Paging} (hpaging : paging.IsNatural) :
    r.Passes True { r with paging } :=
  ⟨⟨hpaging, h.continuation⟩, (and_iff_left trivial).symm⟩

end

end Request

namespace RequestStep

/-- **A step of a request sees to counts and continuations**, and passes on nothing but its own
parameters. -/
theorem passes_run {step : RequestStep} {r r' : Request} (hr : r.HasLimits)
    (h : step.run r = .ok r') : r.Passes step.IsParameterFree r' := by
  cases step with
  | entitySet name =>
    rw [run] at h
    split at h <;> cases h
    exact (hr.addSegment _).congr
      (iff_of_true (hasNoParameters_of_leaves_eq_nil rfl) trivial)
  | key parts =>
    rw [run] at h
    split at h
    case isTrue => cases h
    case isFalse =>
      split at h <;> cases h
      exact (hr.addSegment _).congr (iff_of_true (hasNoParameters_key parts) trivial)
  | navigate name =>
    rw [run] at h
    split at h <;> cases h
    exact (hr.addSegment _).congr
      (iff_of_true (hasNoParameters_of_leaves_eq_nil rfl) trivial)
  | segment s =>
    cases h
    exact hr.addSegment s
  | filter condition =>
    cases h
    refine ⟨⟨hr.paging, hr.continuation⟩, ?_⟩
    simp only [Request.IsParameterFree, hasNoParameters_conjoin, IsParameterFree]
    tauto
  | apply step =>
    cases h
    refine ⟨⟨hr.paging, hr.continuation⟩, ?_⟩
    simp only [Request.IsParameterFree, hasNoParameters_append, hasNoParameters_singleton,
      IsParameterFree]
    tauto
  | select paths =>
    cases h
    exact (hr.addItems _).congr (iff_of_true (areWellFormed_properties paths) trivial)
  | item i =>
    cases h
    exact (hr.addItems [i]).congr areWellFormed_singleton
  -- The steps within have been run to an expansion, which passes on just what they pass.
  | expand navigation steps =>
    obtain ⟨item, hitem, ⟨⟩⟩ := bind_eq_ok_iff.1 h
    exact (hr.addItems [item]).congr (areWellFormed_singleton.trans
      (ExpandStep.wellFormed_of_expandItem (fun step _ => step.passes_run) hitem))
  | orderBy e direction =>
    cases h
    refine ⟨⟨hr.paging, hr.continuation⟩, ?_⟩
    simp only [Request.IsParameterFree, hasNoParameters_append, hasNoParameters_singleton,
      hasNoParameters_orderItem, IsParameterFree]
    tauto
  | skip n =>
    obtain ⟨hn, rfl⟩ := bind_countLiteral_eq_ok.1 h
    exact hr.setPaging (hr.paging.setSkip hn)
  | top n =>
    obtain ⟨hn, rfl⟩ := bind_countLiteral_eq_ok.1 h
    exact hr.setPaging (hr.paging.setTop hn)
  | pageSize n =>
    obtain ⟨hn, rfl⟩ := bind_countLiteral_eq_ok.1 h
    exact hr.setPaging (hr.paging.setPageSize hn)
  | count =>
    cases h
    exact ⟨⟨hr.paging, hr.continuation⟩, (and_iff_left trivial).symm⟩
  | resume continuation =>
    rw [run] at h
    split at h
    case isTrue => cases h
    case isFalse hvalues =>
      cases h
      have hclause := Continuation.isContinuation_clause (Bool.eq_false_iff.2 hvalues)
      exact ⟨⟨hr.paging, fun _ hset => Option.some.inj hset ▸ hclause⟩,
        (and_iff_left trivial).symm⟩

/-- **The steps of a request** keep its limits, and no step takes out a parameter that another one
has passed. -/
theorem passes_runAll {steps : List RequestStep} {r r' : Request} (hr : r.HasLimits)
    (h : runAll steps r = .ok r') : r.Passes (∀ step ∈ steps, step.IsParameterFree) r' := by
  induction steps generalizing r with
  | nil =>
    cases h
    exact ⟨hr, (and_iff_left (List.forall_mem_nil _)).symm⟩
  | cons step rest ih =>
    obtain ⟨next, hstep, hrest⟩ := bind_eq_ok_iff.1 h
    obtain ⟨hnext, hfree⟩ := passes_run hr hstep
    obtain ⟨hr', hfree'⟩ := ih hnext hrest
    exact ⟨hr', by rw [hfree', hfree, List.forall_mem_cons, and_assoc]⟩

end RequestStep

namespace Request

/-- **What a program builds is well-formed** just when none of its steps passes on a parameter. -/
theorem isWellFormed_of_build {steps : List RequestStep} {r : Request}
    (h : build steps = .ok r) : r.IsWellFormed ↔ ∀ step ∈ steps, step.IsParameterFree := by
  obtain ⟨built, hrun, hpath⟩ := bind_eq_ok_iff.1 h
  split at hpath <;> cases hpath
  obtain ⟨hlimits, hfree⟩ := RequestStep.passes_runAll hasLimits_empty hrun
  rw [hlimits.isWellFormed_iff, hfree, and_iff_right isParameterFree_empty]

/-- Well-formed requests are those that can be taken apart. -/
theorem exists_normalizeWith_iff {hash : ByteHash} {r : Request} :
    (∃ n, r.normalizeWith hash = .ok n) ↔ r.IsWellFormed := by
  constructor
  · rintro ⟨n, hn⟩
    exact isWellFormed_of_normalizeWith hn
  · intro hr
    rw [isWellFormed_iff] at hr
    rcases hrun : r.normalizeWith hash with e | n
    · rw [normalizeWith_eq_error, hr] at hrun
      cases hrun
    · exact ⟨n, rfl⟩

/-- **What a program builds is taken apart** just when no step passes on a parameter, and then into
one value for each literal of the request, in order. -/
theorem normalizes_iff_of_build (hash : ByteHash) (steps : List RequestStep) (r : Request)
    (h : build steps = .ok r) :
    ((∃ n, r.normalizeWith hash = .ok n) ↔ ∀ step ∈ steps, step.IsParameterFree) ∧
      ∀ n, r.normalizeWith hash = .ok n → n.arguments.values = Piece.literals r := by
  refine ⟨exists_normalizeWith_iff.trans (isWellFormed_of_build h), fun n hn => ?_⟩
  rw [(slots_of_normalizeWith hn).2, map_snd_literals]

end Request

/-- Customers of a region with their open orders and the lines of these, with counts and a
continuation that are set anew. -/
def RequestStep.customers : List RequestStep :=
  let lines : List ExpandStep := [.pageSize 9, .orderBy (.property ⟨["Number"]⟩) .ascending]
  let orders : List ExpandStep := [.filter (.property ⟨["Open"]⟩), .top 8,
    .expand ⟨["Lines"]⟩ lines,
    .filter (.binary .gt (.property ⟨["Total"]⟩) (.literal (.int 100))), .top 3]
  [.entitySet "Regions", .key [("Name", .string "North")], .navigate "Customers",
    .filter (.unary .not (.property ⟨["Closed"]⟩)), .expand ⟨["Orders"]⟩ orders, .skip 7, .skip 0,
    .resume ⟨[("Name", .string "Ann")]⟩, .resume ⟨[("Name", .string "Bea")]⟩, .count]

/-- Customers with a key, filters, counts and a continuation: six literals, six values in order. -/
theorem Request.normalizes_iff_of_build_customers :
    ∃ r n, Request.build RequestStep.customers = .ok r ∧ r.normalizeWith (fun _ => 0) = .ok n ∧
      n.arguments.values =
        [.string "North", .int 100, .int 9, .int 3, .int 0, .string "Bea"] := by
  obtain ⟨hiff, hvalues⟩ := normalizes_iff_of_build (fun _ => 0) RequestStep.customers _ rfl
  have hfree : ∀ step ∈ RequestStep.customers, step.IsParameterFree := by
    simp [RequestStep.customers, RequestStep.IsParameterFree, ExpandStep.areParameterFree_iff,
      ExpandStep.IsParameterFree, HasNoParameters, Piece.leaves, Expr.leaves]
  obtain ⟨n, hn⟩ := hiff.2 hfree
  exact ⟨_, n, rfl, hn, hvalues n hn⟩

/-- A parameter within an expansion is built, but not taken apart. -/
example :
    let orders : List ExpandStep := [.filter (.parameter ⟨"__p0", .bool⟩)]
    ∃ r, Request.build [.entitySet "Customers", .expand ⟨["Orders"]⟩ orders] = .ok r ∧
      r.normalizeWith (fun _ => 0) = .error .parameterInRequest :=
  ⟨_, rfl, rfl⟩

end QueryPlans
