import QueryPlans.Proofs.Shape.Digest
import QueryPlans.Proofs.Shape.Lifting

/-!
# Proofs/Shape/Agreement — shapes are equal when requests differ in literals alone

Node-for-node agreement of lifted requests is equality after erasing, as long as everything is
modelled (`Matches`).  Lifting keeps what erasing keeps, and what agrees has one digest; so two
shapes are equal exactly when their requests are modelled throughout and differ in the values of
literals alone (`shape_agrees_iff`), whatever the hash function.
-/

namespace QueryPlans

open Piece

/-! ## Pieces that were lifted -/

section

variable {α β : Type} [Piece α] [Piece β]

/-- **Matching as it should be**: lifted pieces agree when they keep the same of their literals and
all of them is modelled. -/
def Matches (agree : α → α → Bool) (a : α) : Prop :=
  ∀ ⦃b⦄, isLifted a = true → isLifted b = true →
    (agree a b = true ↔ erase a = erase b ∧ isModelled a = true)

/-- Lists match if their members do, position by position and in number. -/
theorem Matches.list {agree : α → α → Bool} {as : List α} (h : ∀ a ∈ as, Matches agree a) :
    Matches (matchEach agree) as := by
  intro bs hA hB
  induction as generalizing bs with
  | nil => cases bs <;> simp [matchEach, isModelled]
  | cons a rest ih =>
    cases bs with
    | nil => simp [matchEach]
    | cons b more =>
      rw [List.forall_mem_cons] at h
      rw [isLifted, allLeaves_cons, Bool.and_eq_true] at hA hB
      simp only [matchEach, Bool.and_eq_true, h.1 hA.1 hB.1, ih h.2 hA.2 hB.2, erase_cons,
        List.cons.injEq, isModelled, allLeaves_cons]
      exact and_and_and_comm

/-- A missing clause matches only a missing one. -/
theorem Matches.option {agree : α → α → Bool} {a : Option α} (h : ∀ x ∈ a, Matches agree x) :
    Matches (matchOption agree) a := by
  intro b hA hB
  cases a with
  | none => cases b <;> simp [matchOption, isModelled]
  | some x =>
    cases b with
    | none => simp [matchOption]
    | some y =>
      rw [matchOption, h x rfl hA hB, erase_some, erase_some, Option.some_inj]
      rfl

/-- Named values are matched by name and by value. -/
theorem Matches.named {agree : α → α → Bool} {a : String × α} (h : Matches agree a.2) :
    Matches (matchNamed agree) a := by
  intro b hA hB
  obtain ⟨name, x⟩ := a
  obtain ⟨name', y⟩ := b
  rw [matchNamed, Bool.and_eq_true, beq_iff_eq, h hA hB, erase_named, erase_named,
    Prod.mk.injEq]
  exact and_assoc.symm

end

/-! ## Expressions -/

theorem Expr.allAgree_eq (as bs : List Expr) :
    Expr.allAgree as bs = matchEach Expr.agrees as bs := by
  induction as generalizing bs with
  | nil => cases bs <;> rfl
  | cons a rest ih =>
    cases bs with
    | nil => rfl
    | cons b more => rw [Expr.allAgree, matchEach, ih]

/-- The induction is on the expression that stays; the other one is taken apart as `agrees` does it.
-/
theorem Expr.matches_agrees (e : Expr) : Matches Expr.agrees e := by
  induction e with
  | literal v => intro b h; cases h
  -- Lifted sides have parameters for literals, so a literal on either side is out of the question.
  | parameter slot =>
    intro b _ hB
    cases b with
    | parameter slot' => simp [Expr.agrees, isModelled, Leaf.isUnmodelled]
    | literal v => cases hB
    | _ => simp [Expr.agrees]
  | property path =>
    intro b _ _
    cases b <;> simp [Expr.agrees, isModelled]
  | binary op left right ihl ihr =>
    intro b hA hB
    cases b with
    | binary op' left' right' =>
      rw [isLifted, Expr.allLeaves_binary, Bool.and_eq_true] at hA hB
      simp only [Expr.agrees, Bool.and_eq_true, beq_iff_eq, ihl hA.1 hB.1, ihr hA.2 hB.2,
        Expr.erase_binary, Expr.binary.injEq, isModelled, Expr.allLeaves_binary]
      tauto
    | _ => simp [Expr.agrees]
  | unary op operand ih =>
    intro b hA hB
    cases b with
    | unary op' operand' =>
      rw [isLifted, Expr.allLeaves_unary] at hA hB
      simp only [Expr.agrees, Bool.and_eq_true, beq_iff_eq, ih hA hB, Expr.erase_unary,
        Expr.unary.injEq, isModelled, Expr.allLeaves_unary, and_assoc]
    | _ => simp [Expr.agrees]
  | call function args ih =>
    intro b hA hB
    cases b with
    | call function' args' =>
      rw [isLifted, Expr.allLeaves_call] at hA hB
      simp only [Expr.agrees, Expr.allAgree_eq, Bool.and_eq_true, beq_iff_eq, Matches.list ih hA hB,
        Expr.erase_call, Expr.call.injEq, isModelled, Expr.allLeaves_call, and_assoc]
    | _ => simp [Expr.agrees]
  | lambda quantifier source binder body ih =>
    intro b hA hB
    cases b with
    | lambda quantifier' source' binder' body' =>
      rw [isLifted, Expr.allLeaves_lambda] at hA hB
      simp only [Expr.agrees, Bool.and_eq_true, beq_iff_eq, ih hA hB, Expr.erase_lambda,
        Expr.lambda.injEq, isModelled, Expr.allLeaves_lambda, and_assoc]
    | _ => simp [Expr.agrees]
  | oneOf operand items ih ihs =>
    intro b hA hB
    cases b with
    | oneOf operand' items' =>
      rw [isLifted, Expr.allLeaves_oneOf, Bool.and_eq_true] at hA hB
      simp only [Expr.agrees, Expr.allAgree_eq, Bool.and_eq_true, ih hA.1 hB.1,
        Matches.list ihs hA.2 hB.2, Expr.erase_oneOf, Expr.oneOf.injEq, isModelled,
        Expr.allLeaves_oneOf]
      tauto
    | _ => simp [Expr.agrees]
  | unmodelled text =>
    intro b _ _
    cases b <;> simp [Expr.agrees, isModelled, Leaf.isUnmodelled]

/-! ## Clauses -/

theorem OrderItem.matches_agrees (item : OrderItem) : Matches OrderItem.agrees item := by
  intro item' hA hB
  obtain ⟨key, direction⟩ := item
  obtain ⟨key', direction'⟩ := item'
  have hkey := Expr.matches_agrees key hA hB
  rw [OrderItem.agrees, Bool.and_eq_true, beq_iff_eq, hkey, OrderItem.erase_mk, OrderItem.erase_mk,
    OrderItem.mk.injEq, isModelled, isModelled, OrderItem.allLeaves_eq]
  tauto

theorem Aggregate.matches_agrees (item : Aggregate) : Matches Aggregate.agrees item := by
  intro item' hA hB
  obtain ⟨operand, method, name⟩ := item
  obtain ⟨operand', method', name'⟩ := item'
  have hoperand := Expr.matches_agrees operand hA hB
  rw [Aggregate.agrees, Bool.and_eq_true, Bool.and_eq_true, beq_iff_eq, beq_iff_eq, hoperand,
    Aggregate.erase_mk, Aggregate.erase_mk, Aggregate.mk.injEq, isModelled, isModelled,
    Aggregate.allLeaves_eq]
  tauto

theorem Computed.matches_agrees (item : Computed) : Matches Computed.agrees item := by
  intro item' hA hB
  obtain ⟨value, name⟩ := item
  obtain ⟨value', name'⟩ := item'
  have hvalue := Expr.matches_agrees value hA hB
  rw [Computed.agrees, Bool.and_eq_true, beq_iff_eq, hvalue, Computed.erase_mk, Computed.erase_mk,
    Computed.mk.injEq, isModelled, isModelled, Computed.allLeaves_eq]
  tauto

theorem Transformation.allAgree_eq (as bs : List Transformation) :
    Transformation.allAgree as bs = matchEach Transformation.agrees as bs := by
  induction as generalizing bs with
  | nil => cases bs <;> rfl
  | cons a rest ih =>
    cases bs with
    | nil => rfl
    | cons b more => rw [Transformation.allAgree, matchEach, ih]

/-- A nested pipeline is a list of steps, so the hypothesis is the one for each of them. -/
theorem Transformation.matches_agrees (step : Transformation) :
    Matches Transformation.agrees step := by
  induction step with
  | filter condition =>
    intro b hA hB
    cases b with
    | filter condition' =>
      have hcondition := Expr.matches_agrees condition hA hB
      simp [Transformation.agrees, hcondition, isModelled]
    | _ => simp [Transformation.agrees]
  | groupBy properties nested ih =>
    intro b hA hB
    cases b with
    | groupBy properties' nested' =>
      rw [isLifted, Transformation.allLeaves_groupBy] at hA hB
      have hnested := Matches.list ih hA hB
      simp [Transformation.agrees, Transformation.allAgree_eq, hnested, isModelled, and_assoc]
    | _ => simp [Transformation.agrees]
  | aggregate items =>
    intro b hA hB
    cases b with
    | aggregate items' =>
      have hitems := Matches.list (fun item _ => Aggregate.matches_agrees item) hA hB
      simp [Transformation.agrees, hitems, isModelled]
    | _ => simp [Transformation.agrees]
  | compute items =>
    intro b hA hB
    cases b with
    | compute items' =>
      have hitems := Matches.list (fun item _ => Computed.matches_agrees item) hA hB
      simp [Transformation.agrees, hitems, isModelled]
    | _ => simp [Transformation.agrees]

theorem matches_matchOption (e : Option Expr) : Matches (matchOption Expr.agrees) e :=
  .option fun e _ => Expr.matches_agrees e

theorem Paging.matches_agrees (paging : Paging) : Matches Paging.agrees paging := by
  intro paging' hA hB
  obtain ⟨skip, top, pageSize⟩ := paging
  obtain ⟨skip', top', pageSize'⟩ := paging'
  simp only [isLifted, Paging.allLeaves_eq, Bool.and_eq_true] at hA hB
  have hskip := matches_matchOption skip hA.1.1 hB.1.1
  have htop := matches_matchOption top hA.1.2 hB.1.2
  have hsize := matches_matchOption pageSize hA.2 hB.2
  simp only [Paging.agrees, Bool.and_eq_true, hskip, htop, hsize, Paging.erase_mk, Paging.mk.injEq,
    isModelled, Paging.allLeaves_eq]
  tauto

theorem matches_matchOrder (items : List OrderItem) : Matches (matchEach OrderItem.agrees) items :=
  .list fun item _ => OrderItem.matches_agrees item

/-- The three clauses of an expansion: filter, order and counts. -/
theorem ExpandClauses.matches_agrees (clauses : ExpandClauses) :
    Matches ExpandClauses.agrees clauses := by
  intro clauses' hA hB
  obtain ⟨filter, orderBy, paging, count, levels, nextLink⟩ := clauses
  obtain ⟨filter', orderBy', paging', count', levels', nextLink'⟩ := clauses'
  simp only [isLifted, ExpandClauses.allLeaves_eq, Bool.and_eq_true] at hA hB
  have hfilter := matches_matchOption filter hA.1.1 hB.1.1
  have horder := matches_matchOrder orderBy hA.1.2 hB.1.2
  have hpaging := Paging.matches_agrees paging hA.2 hB.2
  simp only [ExpandClauses.agrees, Bool.and_eq_true, beq_iff_eq, hfilter, horder, hpaging,
    ExpandClauses.erase_mk, ExpandClauses.mk.injEq, isModelled, ExpandClauses.allLeaves_eq]
  tauto

theorem SelectItem.allAgree_eq (as bs : List SelectItem) :
    SelectItem.allAgree as bs = matchEach SelectItem.agrees as bs := by
  induction as generalizing bs with
  | nil => cases bs <;> rfl
  | cons a rest ih =>
    cases bs with
    | nil => rfl
    | cons b more => rw [SelectItem.allAgree, matchEach, ih]

/-- Clauses of an expansion are compared before its items. -/
theorem SelectItem.matches_agrees (item : SelectItem) : Matches SelectItem.agrees item := by
  induction item with
  | wildcard =>
    intro b _ _
    cases b <;> simp [SelectItem.agrees, isModelled]
  | property path =>
    intro b _ _
    cases b <;> simp [SelectItem.agrees, isModelled]
  | expand path clauses items ih =>
    intro b hA hB
    cases b with
    | expand path' clauses' items' =>
      rw [isLifted, SelectItem.allLeaves_expand, Bool.and_eq_true] at hA hB
      have hclauses := ExpandClauses.matches_agrees clauses hA.1 hB.1
      have hitems := Matches.list ih hA.2 hB.2
      simp only [SelectItem.agrees, SelectItem.allAgree_eq, Bool.and_eq_true, beq_iff_eq, hclauses,
        hitems, SelectItem.erase_expand, SelectItem.expand.injEq, isModelled,
        SelectItem.allLeaves_expand]
      tauto
    | _ => simp [SelectItem.agrees]

/-! ## Requests -/

theorem matches_matchParts (parts : List (String × Expr)) :
    Matches (matchEach (matchNamed Expr.agrees)) parts :=
  .list fun part _ => .named (Expr.matches_agrees part.2)

/-- A key matches by the names of its parts and by their values. -/
theorem Segment.matches_agrees (segment : Segment) : Matches Segment.agrees segment := by
  intro b hA hB
  cases segment with
  | key parts =>
    cases b with
    | key parts' =>
      have hparts := matches_matchParts parts hA hB
      simp [Segment.agrees, hparts, isModelled]
    | _ => simp [Segment.agrees]
  | unmodelled text =>
    cases b <;> simp [Segment.agrees, isModelled, allLeaves, leaves, Leaf.isUnmodelled]
  | _ => cases b <;> simp [Segment.agrees, isModelled, allLeaves, leaves]

/-- **Lifted requests agree when they keep the same and are modelled throughout.** -/
theorem Request.matches_agrees (r : Request) : Matches Request.agrees r := by
  intro r' hA hB
  obtain ⟨path, filter, apply, items, orderBy, paging, continuation, count⟩ := r
  obtain ⟨path', filter', apply', items', orderBy', paging', continuation', count'⟩ := r'
  simp only [isLifted, Request.allLeaves_eq, Bool.and_eq_true] at hA hB
  obtain ⟨⟨⟨⟨⟨⟨hpath, hfilter⟩, happly⟩, hitems⟩, horder⟩, hpaging⟩, hcontinuation⟩ := hA
  obtain ⟨⟨⟨⟨⟨⟨hpath', hfilter'⟩, happly'⟩, hitems'⟩, horder'⟩, hpaging'⟩, hcontinuation'⟩ := hB
  have hpath := Matches.list (fun segment _ => Segment.matches_agrees segment) hpath hpath'
  have hfilter := matches_matchOption filter hfilter hfilter'
  have happly := Matches.list (fun step _ => Transformation.matches_agrees step) happly happly'
  have hitems := Matches.list (fun item _ => SelectItem.matches_agrees item) hitems hitems'
  have horder := matches_matchOrder orderBy horder horder'
  have hpaging := Paging.matches_agrees paging hpaging hpaging'
  have hcontinuation := Matches.option (fun values _ => matches_matchParts values) hcontinuation
    hcontinuation'
  simp only [Request.agrees, Transformation.allAgree_eq, SelectItem.allAgree_eq, Bool.and_eq_true,
    beq_iff_eq, hpath, hfilter, happly, hitems, horder, hpaging, hcontinuation, Request.erase_mk,
    Request.mk.injEq, isModelled, Request.allLeaves_eq]
  constructor
  · rintro ⟨⟨⟨⟨⟨⟨⟨⟨ep, mp⟩, ef, mf⟩, ea, ma⟩, ei, mi⟩, eo, mo⟩, eg, mg⟩, ec, mc⟩, hcount⟩
    exact ⟨⟨ep, ef, ea, ei, eo, eg, ec, hcount⟩, ⟨⟨⟨⟨⟨⟨mp, mf⟩, ma⟩, mi⟩, mo⟩, mg⟩, mc⟩⟩
  · rintro ⟨⟨ep, ef, ea, ei, eo, eg, ec, hcount⟩, ⟨⟨⟨⟨⟨⟨mp, mf⟩, ma⟩, mi⟩, mo⟩, mg⟩, mc⟩⟩
    exact ⟨⟨⟨⟨⟨⟨⟨⟨ep, mp⟩, ef, mf⟩, ea, ma⟩, ei, mi⟩, eo, mo⟩, eg, mg⟩, ec, mc⟩, hcount⟩

/-! ## Shapes -/

/-- Requests that agree once lifted are never parted by a hash. -/
theorem Request.digest_eq_of_agrees {a b : Request} (hA : isLifted a = true)
    (hB : isLifted b = true) (h : a.agrees b = true) : a.digest = b.digest := by
  have herase := ((Request.matches_agrees a hA hB).1 h).1
  rw [← Request.forgets_digest a hA, herase, Request.forgets_digest b hB]

namespace Request

variable {hash : ByteHash} {r : Request} {n : Normalized}

/-- The parameters of a request that was taken apart are numbered without a gap. -/
theorem isNumbered_of_normalizeWith (h : r.normalizeWith hash = .ok n) :
    n.arguments.IsNumbered := by
  obtain ⟨s, hs, hargs, -⟩ := lifted_of_normalizeWith h
  rw [hargs, hs.arguments]
  exact Arguments.isNumbered_empty.pushAll _

/-- Lifting keeps what erasing keeps. -/
theorem erase_of_normalizeWith (h : r.normalizeWith hash = .ok n) :
    erase n.shape.request = erase r := by
  have hnumbered := isNumbered_of_normalizeWith h
  obtain ⟨s, hs, hargs, -⟩ := lifted_of_normalizeWith h
  rw [hargs] at hnumbered
  refine hs.mapLeaves_eq Leaf.typeOnly Leaf.typeOnly ⟨fun a ha => ?_, fun _ => rfl⟩
  exact congrArg (fun type => Leaf.parameter ⟨"", type⟩) (hnumbered.types a ha)

/-- No literal is left in a shape. -/
theorem isLifted_of_normalizeWith (h : r.normalizeWith hash = .ok n) :
    isLifted n.shape.request = true := by
  obtain ⟨s, hs, -⟩ := lifted_of_normalizeWith h
  exact hs.isLifted

/-- Lifting neither brings in a construct that is not modelled nor takes one out. -/
theorem isModelled_of_normalizeWith (h : r.normalizeWith hash = .ok n) :
    isModelled n.shape.request = isModelled r := by
  obtain ⟨s, hs, -⟩ := lifted_of_normalizeWith h
  exact hs.isModelled

theorem isCacheable_of_normalizeWith (h : r.normalizeWith hash = .ok n) :
    n.shape.isCacheable = isModelled r := by
  obtain ⟨s, hs, -, hcacheable, -⟩ := lifted_of_normalizeWith h
  rw [hcacheable, hs.modelled]
  exact Bool.true_and _

/-- The hash of a shape is the one of its digest, with no literal in it. -/
theorem hash_of_normalizeWith (h : r.normalizeWith hash = .ok n) :
    n.shape.hash = hash n.shape.request.digest := by
  obtain ⟨s, -, -, -, hhash⟩ := lifted_of_normalizeWith h
  exact hhash

/-- What is left of two requests agrees when they are modelled and differ in values alone. -/
theorem agrees_iff_of_normalizeWith {r' : Request} {n' : Normalized}
    (h : r.normalizeWith hash = .ok n) (h' : r'.normalizeWith hash = .ok n') :
    n.shape.request.agrees n'.shape.request = true ↔
      erase r = erase r' ∧ isModelled r = true := by
  have hmatches := matches_agrees n.shape.request (isLifted_of_normalizeWith h)
    (isLifted_of_normalizeWith h')
  rwa [erase_of_normalizeWith h, erase_of_normalizeWith h', isModelled_of_normalizeWith h]
    at hmatches

end Request

/-- **Shapes are equal exactly when requests are modelled and differ in the values of literals
alone**, and a hash never parts lifted requests that agree.  Both hold under every hash function. -/
theorem shape_agrees_iff (hash : ByteHash) (r r' : Request) (n n' : Normalized)
    (h : r.normalizeWith hash = .ok n) (h' : r'.normalizeWith hash = .ok n') :
    (n.shape.agrees n'.shape = true ↔
      (isModelled r = true ∧ isModelled r' = true) ∧ erase r = erase r') ∧
    (n.shape.request.agrees n'.shape.request = true → n.shape.hash = n'.shape.hash) := by
  have hiff := Request.agrees_iff_of_normalizeWith h h'
  have hhash (hagrees : n.shape.request.agrees n'.shape.request = true) :
      n.shape.hash = n'.shape.hash := by
    rw [Request.hash_of_normalizeWith h, Request.hash_of_normalizeWith h',
      Request.digest_eq_of_agrees (Request.isLifted_of_normalizeWith h)
        (Request.isLifted_of_normalizeWith h') hagrees]
  refine ⟨?_, hhash⟩
  simp only [Shape.agrees, Bool.and_eq_true, beq_iff_eq, Request.isCacheable_of_normalizeWith h,
    Request.isCacheable_of_normalizeWith h']
  constructor
  · rintro ⟨⟨hmodelled, -⟩, hagrees⟩
    exact ⟨hmodelled, (hiff.1 hagrees).1⟩
  · rintro ⟨hmodelled, herase⟩
    have hagrees := hiff.2 ⟨herase, hmodelled.1⟩
    exact ⟨⟨hmodelled, hhash hagrees⟩, hagrees⟩

/-- Those above an age. -/
def Request.above (age : Int64) : Request :=
  { Request.empty with
    path := [.entitySet "People"]
    filter := some (.binary .gt (.property ⟨["Age"]⟩) (.literal (.int age))) }

/-- Two requests that ask for ages above different numbers: one shape, and one hash of it. -/
theorem shape_agrees_iff_above :
    ∃ n n', (Request.above 18).normalizeWith (XXH64.hash 0) = .ok n ∧
      (Request.above 65).normalizeWith (XXH64.hash 0) = .ok n' ∧
      n.shape.agrees n'.shape = true ∧ n.shape.hash = n'.shape.hash := by
  refine ⟨_, _, rfl, rfl, ?_⟩
  have hagrees := shape_agrees_iff (XXH64.hash 0) (.above 18) (.above 65) _ _ rfl rfl
  exact ⟨hagrees.1.2 ⟨⟨rfl, rfl⟩, rfl⟩, hagrees.2 rfl⟩

end QueryPlans
