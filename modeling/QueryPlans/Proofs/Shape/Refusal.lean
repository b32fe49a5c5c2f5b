import QueryPlans.Proofs.Shape.Lifting

/-!
# Proofs/Shape/Refusal — which requests cannot be taken apart, and why

A request is refused for a parameter in an expression, for a count that is no natural number, and
for a continuation that is empty or has values that do not stand alone.  All such offences of a
request are listed in the order of visits (`Request.offences`).  A well-formed request has none, and
any other is refused for the first of its offences (`Request.refused_iff`).

That a step is refused for the first of some offences (`Refuses`) passes from pieces to what is put
together of them, as `Lifts` does.
-/

namespace QueryPlans

open Piece

/-! ## Offences -/

/-- What a request may be refused for. -/
inductive Offence where
  | parameter (slot : Parameter)
  | count (clause : CountClause) (value : Expr)
  | emptyContinuation
  | continuationValue (value : Expr)

/-- What an offence is refused with. -/
def Offence.error : Offence → LiftError
  | parameter _ => .parameterInRequest
  | count clause (.literal _) => .countNotNatural clause
  | count clause _ => .countNotLiteral clause
  | emptyContinuation => .emptyContinuation
  | continuationValue _ => .continuationNotLiteral

/-- A leaf is at fault if it is a parameter. -/
def Leaf.offence? : Leaf → Option Offence
  | parameter slot => some (.parameter slot)
  | literal _ | unmodelled _ => none

/-- The parameters of a piece from left to right. -/
def parametersIn {α : Type} [Piece α] (a : α) : List Offence := (leaves a).filterMap Leaf.offence?

/-- Whether an expression is a natural number. -/
def Expr.isNatural : Expr → Bool
  | .literal (.int n) => 0 ≤ n
  | _ => false

/-- A count is at fault unless it is a natural number. -/
def CountClause.offences (clause : CountClause) (e : Expr) : List Offence :=
  if e.isNatural then [] else [.count clause e]

/-- Whether an expression is a leaf that may be a value of a continuation. -/
def Expr.standsAlone : Expr → Bool
  | .literal _ | .unmodelled _ => true
  | _ => false

/-- A continuation is at fault if it is empty, or for each value that does not stand alone. -/
def continuationOffences (values : List (String × Expr)) : List Offence :=
  if values.isEmpty then [.emptyContinuation]
  else values.flatMap fun value => if value.2.standsAlone then [] else [.continuationValue value.2]

namespace SelectItem

mutual

/-- The offences of an item in the order of visits. -/
def offences : SelectItem → List Offence
  | .wildcard | .property _ => []
  | .expand _ clauses items =>
    parametersIn clauses.filter ++ parametersIn clauses.orderBy ++ offencesAll items ++
      clauses.paging.skip.elim [] CountClause.skip.offences ++
      clauses.paging.top.elim [] CountClause.top.offences ++
      clauses.paging.pageSize.elim [] CountClause.pageSize.offences

/-- The offences of several items. -/
def offencesAll : List SelectItem → List Offence
  | [] => []
  | item :: rest => item.offences ++ offencesAll rest

end

theorem offencesAll_eq (items : List SelectItem) : offencesAll items = items.flatMap offences := by
  induction items with
  | nil => rfl
  | cons item rest ih => rw [offencesAll, ih, List.flatMap_cons]

end SelectItem

/-- **The offences of a request** in the order of visits. -/
def Request.offences (r : Request) : List Offence :=
  parametersIn r.path ++ parametersIn r.filter ++ parametersIn r.apply ++
    SelectItem.offencesAll r.items ++ parametersIn r.orderBy ++
    r.paging.skip.elim [] CountClause.skip.offences ++
    r.paging.top.elim [] CountClause.top.offences ++
    r.continuation.elim [] continuationOffences ++
    r.paging.pageSize.elim [] CountClause.pageSize.offences

/-! ## Steps that fail -/

namespace LiftM

variable {α β : Type} {s : Lifting} {e : LiftError}

/-- Two steps fail if the first does, or the second does from where that ends. -/
theorem bind_eq_error {x : LiftM α} {f : α → LiftM β} :
    (x >>= f).run s = .error e ↔
      x.run s = .error e ∨ ∃ a t, x.run s = .ok (a, t) ∧ (f a).run t = .error e := by
  rw [StateT.run_bind]
  rcases x.run s with e | ⟨a, t⟩ <;> simp [bind, Except.bind]

theorem map_eq_error {x : LiftM α} {f : α → β} :
    (f <$> x).run s = .error e ↔ x.run s = .error e := by
  rw [StateT.run_map]
  rcases x.run s with e | ⟨a, t⟩ <;> simp [Functor.map, Except.map]

theorem throw_eq_error {e' : LiftError} : (throw e' : LiftM α).run s = .error e ↔ e' = e := by
  simp [throw, throwThe, MonadExceptOf.throw, StateT.run, StateT.lift]

end LiftM

/-- **Lifting is refused for the first of some offences**, and only for that. -/
def Refuses {α : Type} (lift : α → LiftM α) (offences : List Offence) (a : α) : Prop :=
  ∀ s e, (lift a).run s = .error e ↔ offences.head?.map Offence.error = some e

namespace Refuses

variable {α β : Type} {liftA : α → LiftM α} {liftB : β → LiftM β}
  {offencesA offencesB : List Offence} {a : α}

/-- A step without offences succeeds. -/
theorem exists_ok (h : Refuses liftA [] a) (s : Lifting) :
    ∃ l s', (liftA a).run s = .ok (l, s') := by
  rcases hrun : (liftA a).run s with e | ⟨l, s'⟩
  · cases (h s e).1 hrun
  · exact ⟨l, s', rfl⟩

/-- **Two pieces one after the other**: the second is only looked at if the first is not refused. -/
theorem pair {p : α × β} (hA : Refuses liftA offencesA p.1) (hB : Refuses liftB offencesB p.2) :
    Refuses (liftPair liftA liftB) (offencesA ++ offencesB) p := by
  intro s e
  have hpair : (liftPair liftA liftB p).run s = .error e ↔ (liftA p.1).run s = .error e ∨
      ∃ a t, (liftA p.1).run s = .ok (a, t) ∧ (liftB p.2).run t = .error e := by
    simp only [liftPair, bind_pure_comp, LiftM.bind_eq_error, LiftM.map_eq_error]
  rw [hpair]
  -- The second piece is only come to if the first has no offence.
  cases offencesA with
  | nil =>
    obtain ⟨a, t, hrun⟩ := hA.exists_ok s
    simpa [hrun] using hB t e
  | cons first _ =>
    have hrun := (hA s first.error).2 rfl
    simp [hrun]

/-- A piece that is built of another is refused as the other is. -/
theorem map (build : α → β) (hlift : ∀ a, liftB (build a) = build <$> liftA a)
    (hA : Refuses liftA offencesA a) : Refuses liftB offencesA (build a) := by
  intro s e
  rw [hlift, LiftM.map_eq_error]
  exact hA s e

/-- A step that succeeds whatever was pushed before is refused for nothing. -/
theorem of_ok (h : ∀ s, ∃ result, (liftA a).run s = .ok result) : Refuses liftA [] a := by
  intro s e
  obtain ⟨result, hrun⟩ := h s
  simp [hrun]

theorem of_pure (hlift : liftA a = pure a) : Refuses liftA [] a :=
  of_ok fun s => ⟨(a, s), by rw [hlift]; rfl⟩

/-- Taking note of a construct that is not modelled never fails. -/
theorem of_note (hlift : liftA a = do Lifting.noteUnmodelled; return a) : Refuses liftA [] a :=
  of_ok fun s => ⟨(a, { s with modelled := false }), by rw [hlift]; rfl⟩

/-- Nor does pushing a literal. -/
theorem of_push {lift : Expr → LiftM Expr} {origin : SlotOrigin} {v : Scalar}
    (hlift : lift (.literal v) = Lifting.push origin v) : Refuses lift [] (.literal v) :=
  of_ok fun s => ⟨(.parameter (s.arguments.nextSlot origin v).parameter,
    { s with arguments := s.arguments.push origin v }), by rw [hlift]; rfl⟩

/-- A step that throws is refused for just that. -/
theorem of_throw (offence : Offence) (hlift : liftA a = throw offence.error) :
    Refuses liftA [offence] a := by
  intro s e
  rw [hlift, LiftM.throw_eq_error]
  simp

/-- A list is refused for the first offence of its first member that has one. -/
theorem list {offences : α → List Offence} {as : List α}
    (h : ∀ a ∈ as, Refuses liftA (offences a) a) :
    Refuses (List.mapM liftA) (as.flatMap offences) as := by
  induction as with
  | nil => exact of_pure List.mapM_nil
  | cons a rest ih =>
    rw [List.forall_mem_cons] at h
    refine map (fun p : α × List α => p.1 :: p.2) (fun p => ?_)
      (pair (p := (a, rest)) h.1 (ih h.2))
    simp [liftPair]

/-- A clause that is missing is refused for nothing. -/
theorem option {offences : α → List Offence} {a : Option α}
    (h : ∀ b ∈ a, Refuses liftA (offences b) b) :
    Refuses (Option.mapM liftA) (a.elim [] offences) a := by
  cases a with
  | none => exact of_pure rfl
  | some b => exact map some (fun _ => rfl) (h b rfl)

end Refuses

/-! ## Pieces with parameters alone -/

section

variable {α β : Type} [Piece α] [Piece β]

/-- The parameters of a piece depend on its leaves alone. -/
theorem parametersIn_congr {a : α} {b : β} (h : leaves a = leaves b) :
    parametersIn a = parametersIn b := by rw [parametersIn, h, parametersIn]

theorem parametersIn_pair (a : α) (b : β) :
    parametersIn (a, b) = parametersIn a ++ parametersIn b := List.filterMap_append

theorem parametersIn_list (as : List α) : parametersIn as = as.flatMap parametersIn :=
  List.filterMap_flatMap

namespace Refuses

variable {liftA : α → LiftM α} {liftB : β → LiftM β}

/-- As `pair`, where parameters are the only offences. -/
theorem pairIn {a : α} {b : β} (hA : Refuses liftA (parametersIn a) a)
    (hB : Refuses liftB (parametersIn b) b) :
    Refuses (liftPair liftA liftB) (parametersIn (a, b)) (a, b) := by
  rw [parametersIn_pair]
  exact pair hA hB

/-- A construct around a piece is refused for what the piece is refused for. -/
theorem mapIn (build : α → β) (hlift : ∀ a, liftB (build a) = build <$> liftA a)
    (hleaves : ∀ a, leaves (build a) = leaves a) {a : α} (hA : Refuses liftA (parametersIn a) a) :
    Refuses liftB (parametersIn (build a)) (build a) := by
  rw [parametersIn_congr (hleaves a)]
  exact map build hlift hA

/-- As `list`, where parameters are the only offences. -/
theorem listIn {as : List α} (h : ∀ a ∈ as, Refuses liftA (parametersIn a) a) :
    Refuses (List.mapM liftA) (parametersIn as) as := by
  rw [parametersIn_list]
  exact list h

/-- As `option`, where parameters are the only offences. -/
theorem optionIn {a : Option α} (h : ∀ b ∈ a, Refuses liftA (parametersIn b) b) :
    Refuses (Option.mapM liftA) (parametersIn a) a := by
  cases a with
  | none => exact option h
  | some b => exact option h

end Refuses

end

/-! ## Expressions -/

namespace Expr

/-- **An expression is refused for its leftmost parameter.** -/
theorem refuses (origin : SlotOrigin) (e : Expr) :
    Refuses (Expr.lift origin) (parametersIn e) e := by
  induction e with
  | literal v => exact .of_push (by rw [Expr.lift])
  | parameter slot => exact .of_throw (.parameter slot) (by rw [Expr.lift]; rfl)
  | property path => exact .of_pure (by rw [Expr.lift])
  | binary op left right ihl ihr =>
    exact .mapIn (fun p : Expr × Expr => binary op p.1 p.2) (lift_binary origin op)
      (fun _ => rfl) (.pairIn ihl ihr)
  | unary op operand ih => exact .mapIn (unary op) (lift_unary origin op) (fun _ => rfl) ih
  | call function args ih =>
    exact .mapIn (call function) (lift_call origin function) leavesAll_eq (.listIn ih)
  | lambda quantifier source binder body ih =>
    exact .mapIn (lambda quantifier source binder) (lift_lambda origin quantifier source binder)
      (fun _ => rfl) ih
  | oneOf operand items ih ihs =>
    exact .mapIn (fun p : Expr × List Expr => oneOf p.1 p.2) (lift_oneOf origin)
      (fun p => congrArg _ (leavesAll_eq p.2)) (.pairIn ih (.listIn ihs))
  | unmodelled text => exact .of_note (by rw [Expr.lift])

end Expr

/-! ## Clauses -/

/-- A count is refused unless it is a natural number, and the error tells which clause and why. -/
theorem CountClause.refuses (clause : CountClause) (navigation : List String) (e : Expr) :
    Refuses (clause.lift navigation) (clause.offences e) e := by
  cases e with
  | literal v =>
    cases v with
    | int n =>
      by_cases hn : n < 0
      · have hnatural : Expr.isNatural (.literal (.int n)) = false := by simp [Expr.isNatural, hn]
        rw [CountClause.offences, hnatural]
        exact .of_throw (.count clause _) (by rw [CountClause.lift, if_pos hn]; rfl)
      · have hnatural : Expr.isNatural (.literal (.int n)) = true := by
          simp [Expr.isNatural, Int64.not_lt.1 hn]
        rw [CountClause.offences, hnatural]
        exact .of_push (by rw [CountClause.lift, if_neg hn])
    | _ => exact .of_throw (.count clause (.literal _)) rfl
  | _ => exact .of_throw (.count clause _) rfl

theorem OrderItem.refuses (navigation : List String) (item : OrderItem) :
    Refuses (OrderItem.lift navigation) (parametersIn item) item :=
  .mapIn (mk · item.direction) (lift_mk navigation item.direction) (fun _ => rfl)
    (Expr.refuses (.orderBy navigation) item.key)

theorem Aggregate.refuses (item : Aggregate) : Refuses Aggregate.lift (parametersIn item) item :=
  .mapIn (mk · item.method item.name) (lift_mk item.method item.name) (fun _ => rfl)
    (Expr.refuses .apply item.operand)

theorem Computed.refuses (item : Computed) : Refuses Computed.lift (parametersIn item) item :=
  .mapIn (mk · item.name) (lift_mk item.name) (fun _ => rfl) (Expr.refuses .apply item.value)

/-- A pipeline is refused for its leftmost parameter. -/
theorem Transformation.refuses (step : Transformation) :
    Refuses Transformation.lift (parametersIn step) step := by
  induction step with
  | filter condition =>
    exact .mapIn filter lift_filter (fun _ => rfl) (Expr.refuses .apply condition)
  | groupBy properties nested ih =>
    exact .mapIn (groupBy properties) (lift_groupBy properties) leavesAll_eq (.listIn ih)
  | aggregate items =>
    exact .mapIn aggregate lift_aggregate (fun _ => rfl) (.listIn fun item _ => item.refuses)
  | compute items =>
    exact .mapIn compute lift_compute (fun _ => rfl) (.listIn fun item _ => item.refuses)

/-! ## Selected items -/

/-- **An item is refused for its first offence**: its items come before its own counts. -/
theorem SelectItem.refuses (navigation : List String) (item : SelectItem) :
    Refuses (SelectItem.lift navigation) item.offences item := by
  induction item generalizing navigation with
  | wildcard => exact .of_pure (by rw [SelectItem.lift])
  | property path => exact .of_pure (by rw [SelectItem.lift])
  | expand path clauses items ih =>
    let inner := navigation ++ path.segments
    let parts : Parts := (clauses.filter, clauses.orderBy, items, clauses.paging.skip,
      clauses.paging.top, clauses.paging.pageSize)
    have hparts : Refuses (liftParts inner) _ parts :=
      .pair (.optionIn fun e _ => Expr.refuses (.filter inner) e) <|
        .pair (.listIn fun item _ => OrderItem.refuses inner item) <|
          .pair (.list fun item hitem => ih item hitem inner) <|
            .pair (.option fun e _ => CountClause.refuses .skip inner e) <|
              .pair (.option fun e _ => CountClause.refuses .top inner e)
                (.option fun e _ => CountClause.refuses .pageSize inner e)
    have hexpand : Refuses (SelectItem.lift navigation) _ (ofParts path clauses parts) :=
      .map (ofParts path clauses) (lift_ofParts navigation path clauses) hparts
    simp only [offences, offencesAll_eq, List.append_assoc]
    exact hexpand

/-! ## Requests -/

theorem liftKeyPart_refuses (part : String × Expr) :
    Refuses liftKeyPart (parametersIn part) part :=
  .mapIn (fun e => (part.1, e)) (liftKeyPart_eq part.1) (fun _ => rfl) (Expr.refuses .key part.2)

theorem Segment.refuses (segment : Segment) :
    Refuses Segment.lift (parametersIn segment) segment := by
  cases segment with
  | key parts =>
    exact .mapIn key lift_key (fun _ => rfl) (.listIn fun part _ => liftKeyPart_refuses part)
  | unmodelled text => exact .of_note rfl
  | _ => exact .of_pure rfl

/-- A literal or a construct that is not modelled is refused for nothing, and any other value for
not standing alone, whatever is in it. -/
theorem liftAlone_refuses (origin : SlotOrigin) (e : Expr) :
    Refuses (liftAlone origin) (if e.standsAlone then [] else [.continuationValue e]) e := by
  cases e with
  | literal v => exact .of_push rfl
  | unmodelled text => exact .of_note rfl
  | _ => exact .of_throw (.continuationValue _) rfl

/-- A continuation without values is refused before any value is looked at. -/
theorem liftContinuation_refuses (values : List (String × Expr)) :
    Refuses liftContinuation (continuationOffences values) values := by
  cases values with
  | nil => exact .of_throw .emptyContinuation rfl
  | cons value rest =>
    have hvalues : Refuses (List.mapM liftContinuationValue) _ (value :: rest) :=
      .list fun value _ => .map (fun e => (value.1, e)) (liftContinuationValue_eq value.1)
        (liftAlone_refuses (.continuation value.1) value.2)
    exact hvalues

/-- **A request is refused for the first of its offences.** -/
theorem Request.refuses (r : Request) : Refuses Request.lift r.offences r := by
  let parts : Parts := (r.path, r.filter, r.apply, r.items, r.orderBy, r.paging.skip,
    r.paging.top, r.continuation, r.paging.pageSize)
  have hparts : Refuses liftParts _ parts :=
    .pair (.listIn fun segment _ => Segment.refuses segment) <|
      .pair (.optionIn fun e _ => Expr.refuses (.filter []) e) <|
        .pair (.listIn fun step _ => Transformation.refuses step) <|
          .pair (.list fun item _ => SelectItem.refuses [] item) <|
            .pair (.listIn fun item _ => OrderItem.refuses [] item) <|
              .pair (.option fun e _ => CountClause.refuses .skip [] e) <|
                .pair (.option fun e _ => CountClause.refuses .top [] e) <|
                  .pair (.option fun values _ => liftContinuation_refuses values)
                    (.option fun e _ => CountClause.refuses .pageSize [] e)
  have hrequest : Refuses Request.lift _ (ofParts r.count parts) :=
    .map (ofParts r.count) (lift_ofParts r.count) hparts
  simp only [offences, SelectItem.offencesAll_eq, List.append_assoc]
  exact hrequest

/-! ## Well-formed requests -/

/-- Whether a piece is free of parameters, as what clients send should be. -/
def HasNoParameters {α : Type} [Piece α] (a : α) : Prop := ∀ slot, .parameter slot ∉ leaves a

/-- The expression that a clause has for a count. -/
def CountClause.expr? (paging : Paging) : CountClause → Option Expr
  | skip => paging.skip
  | top => paging.top
  | pageSize => paging.pageSize

/-- Whether the counts of a level are natural numbers. -/
def Paging.IsNatural (paging : Paging) : Prop :=
  ∀ clause e, CountClause.expr? paging clause = some e →
    ∃ n : Int64, 0 ≤ n ∧ e = .literal (.int n)

/-- **Clauses of an expansion that can be taken apart.** -/
structure ExpandClauses.IsWellFormed (clauses : ExpandClauses) : Prop where
  filter : HasNoParameters clauses.filter
  orderBy : HasNoParameters clauses.orderBy
  paging : clauses.paging.IsNatural

namespace SelectItem

mutual

/-- The clauses of all expansions in an item, at any depth. -/
def expansions : SelectItem → List ExpandClauses
  | .wildcard | .property _ => []
  | .expand _ clauses items => clauses :: expansionsAll items

/-- The expansions of several items. -/
def expansionsAll : List SelectItem → List ExpandClauses
  | [] => []
  | item :: rest => item.expansions ++ expansionsAll rest

end

theorem expansionsAll_eq (items : List SelectItem) :
    expansionsAll items = items.flatMap expansions := by
  induction items with
  | nil => rfl
  | cons item rest ih => rw [expansionsAll, ih, List.flatMap_cons]

end SelectItem

/-- Whether a continuation has values and each of them stands alone. -/
structure IsContinuation (values : List (String × Expr)) : Prop where
  ne_nil : values ≠ []
  standAlone : ∀ value ∈ values,
    (∃ v, value.2 = .literal v) ∨ ∃ text, value.2 = .unmodelled text

/-- **Well-formed requests**: expressions have no parameters, counts are natural numbers, and a
continuation has values that stand alone. -/
structure Request.IsWellFormed (r : Request) : Prop where
  path : HasNoParameters r.path
  filter : HasNoParameters r.filter
  apply : HasNoParameters r.apply
  items : ∀ clauses ∈ SelectItem.expansionsAll r.items, clauses.IsWellFormed
  orderBy : HasNoParameters r.orderBy
  paging : r.paging.IsNatural
  continuation : ∀ values, r.continuation = some values → IsContinuation values

/-- No parameter is listed exactly if none stands in the piece. -/
theorem parametersIn_eq_nil {α : Type} [Piece α] {a : α} :
    parametersIn a = [] ↔ HasNoParameters a := by
  rw [parametersIn, List.filterMap_eq_nil_iff]
  constructor
  · intro h slot hslot
    cases h _ hslot
  · intro h leaf hleaf
    cases leaf with
    | parameter slot => exact absurd hleaf (h slot)
    | _ => rfl

/-- A count is no offence exactly if it is written as a natural number. -/
theorem CountClause.offences_eq_nil {clause : CountClause} {e : Expr} :
    clause.offences e = [] ↔ ∃ n : Int64, 0 ≤ n ∧ e = .literal (.int n) := by
  fun_cases Expr.isNatural e <;> simp_all [offences, Expr.isNatural]

/-- The counts of a level are natural exactly if no clause is at fault. -/
theorem Paging.isNatural_iff {paging : Paging} : paging.IsNatural ↔
    paging.skip.elim [] CountClause.skip.offences = [] ∧
      paging.top.elim [] CountClause.top.offences = [] ∧
        paging.pageSize.elim [] CountClause.pageSize.offences = [] := by
  have hclause (clause : CountClause) (e? : Option Expr) :
      e?.elim [] clause.offences = [] ↔
        ∀ e, e? = some e → ∃ n : Int64, 0 ≤ n ∧ e = .literal (.int n) := by
    cases e? <;> simp [CountClause.offences_eq_nil]
  rw [hclause, hclause, hclause]
  exact ⟨fun h => ⟨h .skip, h .top, h .pageSize⟩,
    fun ⟨hskip, htop, hpageSize⟩ clause => by cases clause <;> assumption⟩

theorem Expr.standsAlone_iff {e : Expr} :
    e.standsAlone = true ↔ (∃ v, e = .literal v) ∨ ∃ text, e = .unmodelled text := by
  cases e <;> simp [standsAlone]

/-- A continuation is no offence exactly if it has values and each stands alone. -/
theorem continuationOffences_eq_nil {values : List (String × Expr)} :
    continuationOffences values = [] ↔ IsContinuation values := by
  cases values with
  | nil => exact ⟨nofun, fun h => absurd rfl h.ne_nil⟩
  | cons first rest =>
    have halone : continuationOffences (first :: rest) = [] ↔
        ∀ value ∈ first :: rest, value.2.standsAlone = true := by
      simp [continuationOffences]
    simp only [halone, Expr.standsAlone_iff]
    exact ⟨fun h => ⟨nofun, h⟩, IsContinuation.standAlone⟩

/-- The step of the induction from the items of an expansion to the expansion. -/
theorem SelectItem.offencesAll_eq_nil {items : List SelectItem}
    (h : ∀ item ∈ items, item.offences = [] ↔
      ∀ clauses ∈ item.expansions, clauses.IsWellFormed) :
    offencesAll items = [] ↔ ∀ clauses ∈ expansionsAll items, clauses.IsWellFormed := by
  rw [offencesAll_eq, expansionsAll_eq, List.flatMap_eq_nil_iff, List.forall_mem_flatMap]
  exact forall₂_congr h

/-- **An item is without offences** just when its expansions are well-formed. -/
theorem SelectItem.offences_eq_nil {item : SelectItem} :
    item.offences = [] ↔ ∀ clauses ∈ item.expansions, clauses.IsWellFormed := by
  induction item with
  | wildcard => simp [offences, expansions]
  | property path => simp [offences, expansions]
  | expand path clauses items ih =>
    simp only [offences, expansions, List.append_eq_nil_iff, parametersIn_eq_nil,
      offencesAll_eq_nil ih, List.forall_mem_cons]
    constructor
    · rintro ⟨⟨⟨⟨⟨hfilter, horderBy⟩, hitems⟩, hskip⟩, htop⟩, hpageSize⟩
      exact ⟨⟨hfilter, horderBy, Paging.isNatural_iff.2 ⟨hskip, htop, hpageSize⟩⟩, hitems⟩
    · rintro ⟨h, hitems⟩
      obtain ⟨hskip, htop, hpageSize⟩ := Paging.isNatural_iff.1 h.paging
      exact ⟨⟨⟨⟨⟨h.filter, h.orderBy⟩, hitems⟩, hskip⟩, htop⟩, hpageSize⟩

/-- **A request is well-formed** just when it has no offences. -/
theorem Request.isWellFormed_iff {r : Request} : r.IsWellFormed ↔ r.offences = [] := by
  have hcontinuation : r.continuation.elim [] continuationOffences = [] ↔
      ∀ values, r.continuation = some values → IsContinuation values := by
    cases r.continuation <;> simp [continuationOffences_eq_nil]
  simp only [offences, List.append_eq_nil_iff, parametersIn_eq_nil, hcontinuation,
    SelectItem.offencesAll_eq_nil fun _ _ => SelectItem.offences_eq_nil]
  constructor
  · rintro ⟨hpath, hfilter, happly, hitems, horderBy, hpaging, hcontinuation⟩
    obtain ⟨hskip, htop, hpageSize⟩ := Paging.isNatural_iff.1 hpaging
    exact ⟨⟨⟨⟨⟨⟨⟨⟨hpath, hfilter⟩, happly⟩, hitems⟩, horderBy⟩, hskip⟩, htop⟩, hcontinuation⟩,
      hpageSize⟩
  · rintro ⟨⟨⟨⟨⟨⟨⟨⟨hpath, hfilter⟩, happly⟩, hitems⟩, horderBy⟩, hskip⟩, htop⟩, hcontinuation⟩,
      hpageSize⟩
    exact ⟨hpath, hfilter, happly, hitems, horderBy,
      Paging.isNatural_iff.2 ⟨hskip, htop, hpageSize⟩, hcontinuation⟩

namespace Request

variable (hash : ByteHash) (r : Request)

/-- **A request is refused for the first of its offences**, in the order of visits. -/
theorem normalizeWith_eq_error {e : LiftError} : r.normalizeWith hash = .error e ↔
    r.offences.head?.map Offence.error = some e := by
  rw [← r.refuses .start e, normalizeWith]
  rcases r.lift.run .start with e' | result <;> simp

/-- **Just the requests that are not well-formed are refused**, each for the first of its offences
in the order of visits. -/
theorem refused_iff :
    ((∃ e, r.normalizeWith hash = .error e) ↔ ¬ r.IsWellFormed) ∧
      ∀ e, r.normalizeWith hash = .error e ↔ r.offences.head?.map Offence.error = some e := by
  refine ⟨?_, fun e => normalizeWith_eq_error hash r⟩
  simp only [normalizeWith_eq_error, isWellFormed_iff]
  cases r.offences <;> simp

/-- What an expansion is refused for comes before the request's own clauses. -/
example :
    let paging : Paging := ⟨none, some (.literal (.int (-1))), none⟩
    let orders := SelectItem.expand ⟨["Orders"]⟩ { ExpandClauses.plain with paging } []
    Request.normalize { empty with items := [orders], continuation := some [] } =
      .error (.countNotNatural .top) := rfl

variable {hash r}

/-- Only well-formed requests are taken apart. -/
theorem isWellFormed_of_normalizeWith {n : Normalized} (h : r.normalizeWith hash = .ok n) :
    r.IsWellFormed := by
  rw [isWellFormed_iff]
  cases hoffences : r.offences with
  | nil => rfl
  | cons first rest =>
    have hrefused : r.normalizeWith hash = .error first.error := by
      rw [normalizeWith_eq_error, hoffences]
      rfl
    cases h.symm.trans hrefused

end Request

end QueryPlans
