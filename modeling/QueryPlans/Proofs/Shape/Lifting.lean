import QueryPlans.Proofs.Arguments
import QueryPlans.Proofs.Request.Leaves
import QueryPlans.Shape.Basic

/-!
# Proofs/Shape/Lifting — what lifting does to a piece of syntax

A step of lifting that succeeds has pushed the literals of its piece in order, has left no literal
behind, and has lost nothing: the literals can be put back (`Lifted`).  It has not looked at the
values either, for on zeros of the same types it does the same.  All of this passes from pieces to
what is put together of them (`Lifts.pair`, `Lifts.list`, `Lifts.map`), so each construct of the
syntax has only to be taken apart in the order of visits.
-/

namespace QueryPlans

open Piece

/-! ## Steps that succeed -/

namespace LiftM

variable {α β : Type} {s s' : Lifting}

/-- Two steps succeed if the first does and the second does from where it ends. -/
theorem bind_eq_ok {x : LiftM α} {f : α → LiftM β} {b : β} :
    (x >>= f).run s = .ok (b, s') ↔
      ∃ a t, x.run s = .ok (a, t) ∧ (f a).run t = .ok (b, s') := by
  rw [StateT.run_bind]
  rcases x.run s with e | ⟨a, t⟩ <;> simp [bind, Except.bind]

theorem map_eq_ok {x : LiftM α} {f : α → β} {b : β} :
    (f <$> x).run s = .ok (b, s') ↔ ∃ a, x.run s = .ok (a, s') ∧ f a = b := by
  rw [StateT.run_map]
  rcases x.run s with e | ⟨a, t⟩ <;> simp [Functor.map, Except.map, and_comm]

theorem pure_eq_ok {a b : α} : (pure a : LiftM α).run s = .ok (b, s') ↔ a = b ∧ s = s' := by
  rw [StateT.run_pure]
  simp [pure, Except.pure]

/-- A refusal is no success. -/
theorem throw_ne_ok {e : LiftError} {b : α} : (throw e : LiftM α).run s ≠ .ok (b, s') := by
  simp [throw, throwThe, MonadExceptOf.throw, StateT.run, StateT.lift]

end LiftM

/-! ## Values that only tell their type -/

/-- A value of each type. -/
def ScalarType.zero : ScalarType → Scalar
  | null => .null
  | bool => .bool false
  | int => .int 0
  | float => .float ⟨0⟩
  | string => .string ""
  | bytes => .bytes []
  | dateTime => .dateTime ⟨0, by decide⟩

@[simp] theorem ScalarType.type_zero (t : ScalarType) : t.zero.type = t := by
  cases t <;> rfl

/-- A leaf with the zero of its type in the place of a value. -/
def Leaf.zeroed : Leaf → Leaf
  | literal v => literal v.type.zero
  | parameter slot => literal slot.type.zero
  | unmodelled text => unmodelled text

/-- Arguments with zeros for their values; the slots stay. -/
def Arguments.zeroed (args : Arguments) : Arguments :=
  ⟨args.entries.map fun a => { a with value := a.value.type.zero }⟩

/-- What was found, with zeros for the values. -/
def Lifting.zeroed (s : Lifting) : Lifting := { s with arguments := s.arguments.zeroed }

/-- Zeroed parameters are those that zeros of the same types would have pushed. -/
theorem Arguments.zeroed_push (args : Arguments) (origin : SlotOrigin) (v : Scalar) :
    (args.push origin v).zeroed = args.zeroed.push origin v.type.zero := by
  simp [zeroed, push, nextSlot, size]

theorem Arguments.slots_zeroed (args : Arguments) : args.zeroed.slots = args.slots := by
  simp [zeroed, slots]

/-- A piece with zeros for its literals. -/
def Piece.zeroed {α : Type} [Piece α] (a : α) : α := mapLeaves Leaf.zeroed a

/-- The zeros of a piece are read off the types it keeps. -/
theorem Piece.zeroed_eq_of_erase_eq {α : Type} [Piece α] {a b : α} (h : erase a = erase b) :
    zeroed a = zeroed b := by
  have hzero (a : α) : zeroed a = mapLeaves Leaf.zeroed (erase a) := by
    rw [erase, mapLeaves_mapLeaves, zeroed]
    congr 1
    ext x
    cases x <;> rfl
  rw [hzero, hzero, h]

/-! ## What a step has done -/

/-- The literals of a piece in order, all of one origin. -/
def literalsAt {α : Type} [Piece α] (origin : SlotOrigin) (a : α) : List (SlotOrigin × Scalar) :=
  ((leaves a).filterMap Leaf.literal?).map (Prod.mk origin)

/-- Whether one function on leaves makes of the parameters what another makes of their values. -/
structure Undoes (args : Arguments) (f g : Leaf → Leaf) : Prop where
  value : ∀ a ∈ args.entries, f (.parameter a.slot.parameter) = g (.literal a.value)
  unmodelled : ∀ text, f (.unmodelled text) = g (.unmodelled text)

/-- Parameters that are pushed later do not disturb what was put back. -/
theorem Undoes.mono {args args' : Arguments} {f g : Leaf → Leaf} (h : Undoes args' f g)
    (hle : args.entries <+: args'.entries) : Undoes args f g :=
  ⟨fun a ha => h.value a (hle.subset ha), h.unmodelled⟩

/-- **What a step has done** that lifted `a` to `l`, having met `literals`. -/
structure Lifted {α : Type} [Piece α] (lift : α → LiftM α) (literals : List (SlotOrigin × Scalar))
    (a : α) (s : Lifting) (l : α) (s' : Lifting) : Prop where
  arguments : s'.arguments = s.arguments.pushAll literals
  modelled : s'.modelled = (s.modelled && isModelled a)
  isLifted : isLifted l = true
  isModelled : isModelled l = isModelled a
  /-- The literals can be put back. -/
  mapLeaves_eq : ∀ f g, Undoes s'.arguments f g → mapLeaves f l = mapLeaves g a
  /-- The values of literals have no part in what is left. -/
  zeroed : (lift (zeroed a)).run s.zeroed = .ok (l, s'.zeroed)

/-- **Lifting as it should be**: whenever a step succeeds it has done its work. -/
def Lifts {α : Type} [Piece α] (lift : α → LiftM α) (literals : List (SlotOrigin × Scalar))
    (a : α) : Prop :=
  ∀ ⦃s l s'⦄, (lift a).run s = .ok (l, s') → Lifted lift literals a s l s'

/-! ## Steps put together -/

/-- Lifts one piece and then another. -/
def liftPair {α β : Type} (liftA : α → LiftM α) (liftB : β → LiftM β) (p : α × β) :
    LiftM (α × β) := do
  let a ← liftA p.1
  let b ← liftB p.2
  return (a, b)

namespace Lifts

variable {α β : Type} [Piece α] [Piece β] {liftA : α → LiftM α} {liftB : β → LiftM β}
  {literalsA literalsB : List (SlotOrigin × Scalar)}

/-- **Two pieces one after the other**, each lifted from where the one before it ends. -/
theorem pair {p : α × β} (hA : Lifts liftA literalsA p.1) (hB : Lifts liftB literalsB p.2) :
    Lifts (liftPair liftA liftB) (literalsA ++ literalsB) p := by
  intro s l s' h
  obtain ⟨a, t, ha, h⟩ := LiftM.bind_eq_ok.1 h
  obtain ⟨b, u, hb, h⟩ := LiftM.bind_eq_ok.1 h
  obtain ⟨rfl, rfl⟩ := LiftM.pure_eq_ok.1 h
  have A := hA ha
  have B := hB hb
  have hle : t.arguments.entries <+: u.arguments.entries := by
    rw [B.arguments]
    exact Arguments.entries_prefix_pushAll _ _
  exact {
    arguments := by rw [B.arguments, A.arguments, Arguments.pushAll_append]
    modelled := by
      rw [B.modelled, A.modelled, Bool.and_assoc]
      exact congrArg _ List.all_append.symm
    isLifted := List.all_append.trans (by rw [Bool.and_eq_true]; exact ⟨A.isLifted, B.isLifted⟩)
    isModelled := List.all_append.trans
      ((congrArg₂ and A.isModelled B.isModelled).trans List.all_append.symm)
    mapLeaves_eq := fun f g hfg =>
      Prod.ext (A.mapLeaves_eq f g (hfg.mono hle)) (B.mapLeaves_eq f g hfg)
    zeroed := LiftM.bind_eq_ok.2 ⟨a, _, A.zeroed, LiftM.bind_eq_ok.2
      ⟨b, _, B.zeroed, LiftM.pure_eq_ok.2 ⟨rfl, rfl⟩⟩⟩ }

/-- A piece that is built of another is lifted as the other is. -/
theorem map (build : α → β) (hlift : ∀ a, liftB (build a) = build <$> liftA a)
    (hleaves : ∀ a, leaves (build a) = leaves a)
    (hmap : ∀ f a, mapLeaves f (build a) = build (mapLeaves f a)) {a : α}
    (hA : Lifts liftA literalsA a) : Lifts liftB literalsA (build a) := by
  intro s l s' h
  rw [hlift] at h
  obtain ⟨a', ha, rfl⟩ := LiftM.map_eq_ok.1 h
  have A := hA ha
  have hmodelled (a : α) : isModelled (build a) = isModelled a := allLeaves_congr (hleaves a)
  exact {
    arguments := A.arguments
    modelled := by rw [A.modelled, hmodelled]
    isLifted := (allLeaves_congr (hleaves a')).trans A.isLifted
    isModelled := by rw [hmodelled, hmodelled, A.isModelled]
    mapLeaves_eq := fun f g hfg => by rw [hmap, hmap, A.mapLeaves_eq f g hfg]
    zeroed := by
      rw [Piece.zeroed, hmap, hlift]
      exact LiftM.map_eq_ok.2 ⟨a', A.zeroed, rfl⟩ }

/-- A piece without leaves stays as it is. -/
theorem of_pure {a : α} (hlift : liftA a = pure a) (hleaves : leaves a = [])
    (hmap : ∀ f, mapLeaves f a = a) : Lifts liftA [] a := by
  intro s l s' h
  rw [hlift] at h
  obtain ⟨rfl, rfl⟩ := LiftM.pure_eq_ok.1 h
  have hmodelled : isModelled a = true := by simp [isModelled, allLeaves, hleaves]
  exact {
    arguments := rfl
    modelled := by rw [hmodelled, Bool.and_true]
    isLifted := by simp [Piece.isLifted, allLeaves, hleaves]
    isModelled := rfl
    mapLeaves_eq := fun f g _ => by rw [hmap, hmap]
    zeroed := by
      rw [Piece.zeroed, hmap, hlift]
      exact LiftM.pure_eq_ok.2 ⟨rfl, rfl⟩ }

/-- A refusal has nothing to do. -/
theorem of_throw {a : α} (e : LiftError) (hlift : liftA a = throw e) :
    Lifts liftA literalsA a := by
  intro s l s' h
  rw [hlift] at h
  exact absurd h LiftM.throw_ne_ok

/-- What is not modelled stays and is remembered. -/
theorem of_note {a : α} {text : String}
    (hlift : liftA a = do Lifting.noteUnmodelled; return a)
    (hleaves : leaves a = [.unmodelled text])
    (hmap : ∀ f g, f (.unmodelled text) = g (.unmodelled text) → mapLeaves f a = mapLeaves g a) :
    Lifts liftA [] a := by
  intro s l s' h
  rw [hlift] at h
  obtain ⟨rfl, rfl⟩ : a = l ∧ { s with modelled := false } = s' := LiftM.pure_eq_ok.1 h
  have hmodelled : isModelled a = false := by
    simp [isModelled, allLeaves, hleaves, Leaf.isUnmodelled]
  have hzeroed : zeroed a = a := (hmap Leaf.zeroed id rfl).trans (mapLeaves_id a)
  exact {
    arguments := rfl
    modelled := by rw [hmodelled, Bool.and_false]
    isLifted := by simp [Piece.isLifted, allLeaves, hleaves, Leaf.isLiteral]
    isModelled := rfl
    mapLeaves_eq := fun f g hfg => hmap f g (hfg.unmodelled text)
    zeroed := by
      rw [hzeroed, hlift]
      rfl }

/-- A literal becomes the parameter of its slot. -/
theorem of_push {lift : Expr → LiftM Expr} {origin : SlotOrigin} {v : Scalar}
    (hlift : lift (.literal v) = Lifting.push origin v)
    (hzero : lift (.literal v.type.zero) = Lifting.push origin v.type.zero) :
    Lifts lift [(origin, v)] (.literal v) := by
  intro s l s' h
  rw [hlift] at h
  obtain ⟨rfl, rfl⟩ : Expr.parameter (s.arguments.nextSlot origin v).parameter = l ∧
      { s with arguments := s.arguments.push origin v } = s' := LiftM.pure_eq_ok.1 h
  exact {
    arguments := rfl
    modelled := (Bool.and_true _).symm
    isLifted := rfl
    isModelled := rfl
    mapLeaves_eq := fun f g hfg => congrArg Leaf.toExpr
      (hfg.value _ (List.mem_append_right _ (List.mem_singleton_self _)))
    zeroed := by
      have hslot : s.arguments.nextSlot origin v =
          s.arguments.zeroed.nextSlot origin v.type.zero := by
        simp [Arguments.nextSlot, Arguments.zeroed, Arguments.size]
      change (lift (.literal v.type.zero)).run s.zeroed = _
      rw [hzero, Lifting.zeroed, Lifting.zeroed, Arguments.zeroed_push, hslot]
      rfl }

/-- A list is lifted from left to right, by pairs. -/
theorem list {literals : α → List (SlotOrigin × Scalar)} {as : List α}
    (h : ∀ a ∈ as, Lifts liftA (literals a) a) :
    Lifts (List.mapM liftA) (as.flatMap literals) as := by
  induction as with
  | nil => exact of_pure List.mapM_nil rfl fun _ => rfl
  | cons a rest ih =>
    rw [List.forall_mem_cons] at h
    have hp : Lifts (liftPair liftA (List.mapM liftA)) (literals a ++ rest.flatMap literals)
        (a, rest) := pair h.1 (ih h.2)
    refine map (fun p : α × List α => p.1 :: p.2) (fun p => ?_) (fun _ => rfl) (fun _ _ => rfl) hp
    simp [liftPair]

/-- A clause that is missing pushes nothing. -/
theorem option {literals : α → List (SlotOrigin × Scalar)} {a : Option α}
    (h : ∀ b ∈ a, Lifts liftA (literals b) b) :
    Lifts (Option.mapM liftA) (a.elim [] literals) a := by
  cases a with
  | none => exact of_pure rfl rfl fun _ => rfl
  | some b => exact map some (fun _ => rfl) (fun _ => rfl) (fun _ _ => rfl) (h b rfl)

end Lifts

/-! ## Pieces whose literals have one origin -/

section

variable {α β : Type} [Piece α] [Piece β] (origin : SlotOrigin)

/-- The literals of a piece at one place depend on its leaves alone. -/
theorem literalsAt_congr {a : α} {b : β} (h : leaves a = leaves b) :
    literalsAt origin a = literalsAt origin b := by rw [literalsAt, h, literalsAt]

theorem literalsAt_pair (a : α) (b : β) :
    literalsAt origin (a, b) = literalsAt origin a ++ literalsAt origin b := by
  simp [literalsAt, leaves]

theorem literalsAt_list (as : List α) : literalsAt origin as = as.flatMap (literalsAt origin) := by
  induction as with
  | nil => rfl
  | cons a rest ih =>
    rw [List.flatMap_cons, ← ih, ← literalsAt_pair]
    exact literalsAt_congr origin rfl

variable {origin}

namespace Lifts

/-- As `pair`, with all literals at one place. -/
theorem pairAt {liftA : α → LiftM α} {liftB : β → LiftM β} {a : α} {b : β}
    (hA : Lifts liftA (literalsAt origin a) a) (hB : Lifts liftB (literalsAt origin b) b) :
    Lifts (liftPair liftA liftB) (literalsAt origin (a, b)) (a, b) := by
  rw [literalsAt_pair]
  exact pair hA hB

/-- **A construct around a piece**: it is lifted in its piece, and has the leaves of that. -/
theorem mapAt {liftA : α → LiftM α} {liftB : β → LiftM β} (build : α → β)
    (hlift : ∀ a, liftB (build a) = build <$> liftA a)
    (hleaves : ∀ a, leaves (build a) = leaves a)
    (hmap : ∀ f a, mapLeaves f (build a) = build (mapLeaves f a)) {a : α}
    (hA : Lifts liftA (literalsAt origin a) a) :
    Lifts liftB (literalsAt origin (build a)) (build a) := by
  rw [literalsAt_congr origin (hleaves a)]
  exact map build hlift hleaves hmap hA

/-- As `list`, with all literals at one place. -/
theorem listAt {lift : α → LiftM α} {as : List α}
    (h : ∀ a ∈ as, Lifts lift (literalsAt origin a) a) :
    Lifts (List.mapM lift) (literalsAt origin as) as := by
  rw [literalsAt_list]
  exact list h

/-- As `option`, with all literals at one place. -/
theorem optionAt {lift : α → LiftM α} {a : Option α}
    (h : ∀ b ∈ a, Lifts lift (literalsAt origin b) b) :
    Lifts (Option.mapM lift) (literalsAt origin a) a := by
  cases a with
  | none => exact option h
  | some b => exact option h

end Lifts

end

/-! ## Expressions -/

theorem Expr.liftAll_eq (origin : SlotOrigin) (es : List Expr) :
    Expr.liftAll origin es = es.mapM (Expr.lift origin) := by
  induction es with
  | nil => rw [Expr.liftAll, List.mapM_nil]
  | cons e rest ih => rw [Expr.liftAll, List.mapM_cons, ih]

namespace Expr

variable (origin : SlotOrigin)

/-- The left operand is visited first. -/
theorem lift_binary (op : BinaryOp) (p : Expr × Expr) :
    Expr.lift origin (.binary op p.1 p.2) =
      (fun p => .binary op p.1 p.2) <$> liftPair (Expr.lift origin) (Expr.lift origin) p := by
  simp [Expr.lift, liftPair]

theorem lift_unary (op : UnaryOp) (operand : Expr) :
    Expr.lift origin (.unary op operand) = .unary op <$> Expr.lift origin operand := by
  simp [Expr.lift]

theorem lift_call (function : String) (args : List Expr) :
    Expr.lift origin (.call function args) =
      .call function <$> args.mapM (Expr.lift origin) := by
  simp [Expr.lift, liftAll_eq]

theorem lift_lambda (quantifier : Quantifier) (source : PropertyPath) (binder : String)
    (body : Expr) : Expr.lift origin (.lambda quantifier source binder body) =
      .lambda quantifier source binder <$> Expr.lift origin body := by
  simp [Expr.lift]

/-- The operand is visited before the items. -/
theorem lift_oneOf (p : Expr × List Expr) :
    Expr.lift origin (.oneOf p.1 p.2) = (fun p => .oneOf p.1 p.2) <$>
      liftPair (Expr.lift origin) (List.mapM (Expr.lift origin)) p := by
  simp [Expr.lift, liftAll_eq, liftPair]

/-- **Lifting an expression**, by the constructs that it is made of. -/
theorem lifts (e : Expr) : Lifts (Expr.lift origin) (literalsAt origin e) e := by
  induction e with
  | literal v => exact .of_push (by rw [Expr.lift]) (by rw [Expr.lift])
  | parameter slot => exact .of_throw .parameterInRequest (by rw [Expr.lift])
  | property path => exact .of_pure (by rw [Expr.lift]) rfl fun _ => rfl
  | binary op left right ihl ihr =>
    exact .mapAt (fun p : Expr × Expr => binary op p.1 p.2) (lift_binary origin op)
      (fun _ => rfl) (fun _ _ => rfl) (.pairAt ihl ihr)
  | unary op operand ih =>
    exact .mapAt (unary op) (lift_unary origin op) (fun _ => rfl) (fun _ _ => rfl) ih
  | call function args ih =>
    exact .mapAt (call function) (lift_call origin function) leavesAll_eq
      (fun f es => congrArg _ (mapLeavesAll_eq f es)) (.listAt ih)
  | lambda quantifier source binder body ih =>
    exact .mapAt (lambda quantifier source binder) (lift_lambda origin quantifier source binder)
      (fun _ => rfl) (fun _ _ => rfl) ih
  | oneOf operand items ih ihs =>
    exact .mapAt (fun p : Expr × List Expr => oneOf p.1 p.2) (lift_oneOf origin)
      (fun p => congrArg _ (leavesAll_eq p.2)) (fun f p => congrArg _ (mapLeavesAll_eq f p.2))
      (.pairAt ih (.listAt ihs))
  | unmodelled text =>
    exact .of_note (by rw [Expr.lift]) rfl fun f g h => congrArg Leaf.toExpr h

end Expr

/-! ## Clauses -/

/-- A count is its one literal, at the place of its clause and navigation. -/
theorem CountClause.lifts (clause : CountClause) (navigation : List String) (e : Expr) :
    Lifts (clause.lift navigation) (literalsAt (clause.origin navigation) e) e := by
  cases e with
  | literal v =>
    cases v with
    | int n =>
      by_cases hn : n < 0
      · exact .of_throw (.countNotNatural clause) (by rw [CountClause.lift, if_pos hn])
      · exact .of_push (by rw [CountClause.lift, if_neg hn]) rfl
    | _ => exact .of_throw (.countNotNatural clause) rfl
  | _ => exact .of_throw (.countNotLiteral clause) rfl

namespace OrderItem

variable (navigation : List String)

theorem lift_mk (direction : Direction) (key : Expr) :
    OrderItem.lift navigation ⟨key, direction⟩ =
      (mk · direction) <$> Expr.lift (.orderBy navigation) key := by
  simp [OrderItem.lift]

/-- Keys of an order are lifted where they stand. -/
theorem lifts (item : OrderItem) :
    Lifts (OrderItem.lift navigation) (literalsAt (.orderBy navigation) item) item :=
  .mapAt (mk · item.direction) (lift_mk navigation item.direction) (fun _ => rfl)
    (fun _ _ => rfl) (Expr.lifts (.orderBy navigation) item.key)

end OrderItem

namespace Aggregate

theorem lift_mk (method : AggregateMethod) (name : String) (operand : Expr) :
    Aggregate.lift ⟨operand, method, name⟩ = (mk · method name) <$> Expr.lift .apply operand := by
  simp [Aggregate.lift]

/-- The operand of an aggregate is lifted as a part of the pipeline. -/
theorem lifts (item : Aggregate) : Lifts Aggregate.lift (literalsAt .apply item) item :=
  .mapAt (mk · item.method item.name) (lift_mk item.method item.name) (fun _ => rfl)
    (fun _ _ => rfl) (Expr.lifts .apply item.operand)

end Aggregate

namespace Computed

theorem lift_mk (name : String) (value : Expr) :
    Computed.lift ⟨value, name⟩ = (mk · name) <$> Expr.lift .apply value := by
  simp [Computed.lift]

/-- So is a computed value. -/
theorem lifts (item : Computed) : Lifts Computed.lift (literalsAt .apply item) item :=
  .mapAt (mk · item.name) (lift_mk item.name) (fun _ => rfl) (fun _ _ => rfl)
    (Expr.lifts .apply item.value)

end Computed

namespace Transformation

theorem liftAll_eq (steps : List Transformation) :
    liftAll steps = steps.mapM Transformation.lift := by
  induction steps with
  | nil => rw [liftAll, List.mapM_nil]
  | cons step rest ih => rw [liftAll, List.mapM_cons, ih]

theorem lift_filter (condition : Expr) :
    Transformation.lift (.filter condition) = .filter <$> Expr.lift .apply condition := by
  simp [Transformation.lift]

theorem lift_groupBy (properties : List PropertyPath) (nested : List Transformation) :
    Transformation.lift (.groupBy properties nested) =
      .groupBy properties <$> nested.mapM Transformation.lift := by
  simp [Transformation.lift, liftAll_eq]

theorem lift_aggregate (items : List Aggregate) :
    Transformation.lift (.aggregate items) = .aggregate <$> items.mapM Aggregate.lift := by
  simp [Transformation.lift]

theorem lift_compute (items : List Computed) :
    Transformation.lift (.compute items) = .compute <$> items.mapM Computed.lift := by
  simp [Transformation.lift]

/-- **Lifting a pipeline**: every literal in it has the pipeline for its place. -/
theorem lifts (step : Transformation) :
    Lifts Transformation.lift (literalsAt .apply step) step := by
  induction step with
  | filter condition =>
    exact .mapAt filter lift_filter (fun _ => rfl) (fun _ _ => rfl) (Expr.lifts .apply condition)
  | groupBy properties nested ih =>
    exact .mapAt (groupBy properties) (lift_groupBy properties) leavesAll_eq
      (fun f steps => congrArg _ (mapLeavesAll_eq f steps)) (.listAt ih)
  | aggregate items =>
    exact .mapAt aggregate lift_aggregate (fun _ => rfl) (fun _ _ => rfl)
      (.listAt fun item _ => item.lifts)
  | compute items =>
    exact .mapAt compute lift_compute (fun _ => rfl) (fun _ _ => rfl)
      (.listAt fun item _ => item.lifts)

end Transformation

/-! ## Selected items -/

namespace SelectItem

mutual

/-- The literals of an item in the order of visits, each with its origin. -/
def literals (navigation : List String) : SelectItem → List (SlotOrigin × Scalar)
  | .wildcard | .property _ => []
  | .expand path clauses items =>
    let inner := navigation ++ path.segments
    literalsAt (.filter inner) clauses.filter ++ literalsAt (.orderBy inner) clauses.orderBy ++
      literalsAll inner items ++ literalsAt (.skip inner) clauses.paging.skip ++
      literalsAt (.top inner) clauses.paging.top ++
      literalsAt (.pageSize inner) clauses.paging.pageSize

/-- The literals of several items with their places. -/
def literalsAll (navigation : List String) : List SelectItem → List (SlotOrigin × Scalar)
  | [] => []
  | item :: rest => item.literals navigation ++ literalsAll navigation rest

end

theorem literalsAll_eq (navigation : List String) (items : List SelectItem) :
    literalsAll navigation items = items.flatMap (literals navigation) := by
  induction items with
  | nil => rfl
  | cons item rest ih => rw [literalsAll, ih, List.flatMap_cons]

theorem liftAll_eq (navigation : List String) (items : List SelectItem) :
    liftAll navigation items = items.mapM (lift navigation) := by
  induction items with
  | nil => rw [liftAll, List.mapM_nil]
  | cons item rest ih => rw [liftAll, List.mapM_cons, ih]

/-- The parts of an expansion in the order of visits. -/
abbrev Parts : Type :=
  Option Expr × List OrderItem × List SelectItem × Option Expr × Option Expr × Option Expr

/-- The expansion of a path that has some parts. -/
def ofParts (path : PropertyPath) (clauses : ExpandClauses) : Parts → SelectItem
  | (filter, orderBy, items, skip, top, pageSize) =>
    .expand path { clauses with filter, orderBy, paging := ⟨skip, top, pageSize⟩ } items

/-- Lifts the parts of an expansion within a navigation. -/
def liftParts (inner : List String) : Parts → LiftM Parts :=
  liftPair (Option.mapM (Expr.lift (.filter inner))) <|
    liftPair (List.mapM (OrderItem.lift inner)) <|
      liftPair (List.mapM (lift inner)) <|
        liftPair (Option.mapM (CountClause.skip.lift inner)) <|
          liftPair (Option.mapM (CountClause.top.lift inner)) <|
            Option.mapM (CountClause.pageSize.lift inner)

/-- An expansion is lifted by its parts. -/
theorem lift_ofParts (navigation : List String) (path : PropertyPath) (clauses : ExpandClauses)
    (parts : Parts) : SelectItem.lift navigation (ofParts path clauses parts) =
      ofParts path clauses <$> liftParts (navigation ++ path.segments) parts := by
  obtain ⟨filter, orderBy, items, skip, top, pageSize⟩ := parts
  simp [ofParts, SelectItem.lift, liftAll_eq, liftParts, liftPair]

/-- **Lifting an item**: its filter and order come before its items, and its counts behind them. -/
theorem lifts (navigation : List String) (item : SelectItem) :
    Lifts (SelectItem.lift navigation) (item.literals navigation) item := by
  induction item generalizing navigation with
  | wildcard => exact .of_pure (by rw [SelectItem.lift]) rfl fun _ => rfl
  | property path => exact .of_pure (by rw [SelectItem.lift]) rfl fun _ => rfl
  | expand path clauses items ih =>
    let inner := navigation ++ path.segments
    let parts : Parts := (clauses.filter, clauses.orderBy, items, clauses.paging.skip,
      clauses.paging.top, clauses.paging.pageSize)
    have hparts : Lifts (liftParts inner) _ parts :=
      .pair (.optionAt fun e _ => Expr.lifts (.filter inner) e) <|
        .pair (.listAt fun item _ => OrderItem.lifts inner item) <|
          .pair (.list fun item hitem => ih item hitem inner) <|
            .pair (.optionAt fun e _ => CountClause.lifts .skip inner e) <|
              .pair (.optionAt fun e _ => CountClause.lifts .top inner e)
                (.optionAt fun e _ => CountClause.lifts .pageSize inner e)
    have hexpand : Lifts (SelectItem.lift navigation) _ (ofParts path clauses parts) :=
      .map (ofParts path clauses) (lift_ofParts navigation path clauses)
        (fun p => by simp [ofParts, Piece.leaves, SelectItem.leaves])
        (fun f p => by simp [ofParts, Piece.mapLeaves, SelectItem.mapLeaves]) hparts
    simp only [literals, literalsAll_eq, List.append_assoc]
    exact hexpand

end SelectItem

/-! ## Requests -/

theorem liftKeyPart_eq (name : String) (e : Expr) :
    liftKeyPart (name, e) = (fun e => (name, e)) <$> Expr.lift .key e := by
  simp [liftKeyPart]

theorem liftKeyPart_lifts (part : String × Expr) :
    Lifts liftKeyPart (literalsAt .key part) part :=
  .mapAt (fun e => (part.1, e)) (liftKeyPart_eq part.1) (fun _ => rfl) (fun _ _ => rfl)
    (Expr.lifts .key part.2)

theorem Segment.lift_key (parts : List (String × Expr)) :
    Segment.lift (.key parts) = .key <$> parts.mapM liftKeyPart := by
  simp [Segment.lift]

/-- Only keys have literals. -/
theorem Segment.lifts (segment : Segment) :
    Lifts Segment.lift (literalsAt .key segment) segment := by
  cases segment with
  | key parts =>
    exact .mapAt key lift_key (fun _ => rfl) (fun _ _ => rfl)
      (.listAt fun part _ => liftKeyPart_lifts part)
  | unmodelled text => exact .of_note rfl rfl fun _ _ _ => rfl
  | _ => exact .of_pure rfl rfl fun _ => rfl

/-- A leaf that stands alone is a literal or not modelled. -/
def liftAlone (origin : SlotOrigin) : Expr → LiftM Expr
  | .literal v => Lifting.push origin v
  | .unmodelled text => do
    Lifting.noteUnmodelled
    return .unmodelled text
  | _ => throw .continuationNotLiteral

/-- A value that stands alone is its one literal, if it is one. -/
theorem liftAlone_lifts (origin : SlotOrigin) (e : Expr) :
    Lifts (liftAlone origin) (literalsAt origin e) e := by
  cases e with
  | literal v => exact .of_push rfl rfl
  | unmodelled text => exact .of_note rfl rfl fun f g h => congrArg Leaf.toExpr h
  | _ => exact .of_throw .continuationNotLiteral rfl

/-- A value of a continuation is lifted under its own property. -/
theorem liftContinuationValue_eq (property : String) (e : Expr) :
    liftContinuationValue (property, e) =
      (fun e => (property, e)) <$> liftAlone (.continuation property) e := by
  cases e with
  | literal v => simp [liftContinuationValue, liftAlone]
  | unmodelled text => simp [liftContinuationValue, liftAlone]
  | _ => rfl

theorem liftContinuationValue_lifts (value : String × Expr) :
    Lifts liftContinuationValue (literalsAt (.continuation value.1) value) value :=
  Lifts.mapAt (fun e => (value.1, e)) (liftContinuationValue_eq value.1) (fun _ => rfl)
    (fun _ _ => rfl) (liftAlone_lifts (.continuation value.1) value.2)

/-- The literals of a continuation, each with the property it belongs to. -/
def continuationLiterals (values : List (String × Expr)) : List (SlotOrigin × Scalar) :=
  values.flatMap fun value => literalsAt (.continuation value.1) value

/-- The values of a continuation have their properties for places. -/
theorem liftContinuation_lifts (values : List (String × Expr)) :
    Lifts liftContinuation (continuationLiterals values) values := by
  cases values with
  | nil => exact .of_throw .emptyContinuation rfl
  | cons value rest =>
    intro s l s' h
    have hvalues : Lifts (List.mapM liftContinuationValue) (continuationLiterals (value :: rest))
        (value :: rest) := .list fun value _ => liftContinuationValue_lifts value
    exact { hvalues h with zeroed := (hvalues h).zeroed }

namespace Request

/-- **The literals of a request** in the order of visits, each with its origin. -/
def literals (r : Request) : List (SlotOrigin × Scalar) :=
  literalsAt .key r.path ++ literalsAt (.filter []) r.filter ++ literalsAt .apply r.apply ++
    SelectItem.literalsAll [] r.items ++ literalsAt (.orderBy []) r.orderBy ++
    literalsAt (.skip []) r.paging.skip ++ literalsAt (.top []) r.paging.top ++
    r.continuation.elim [] continuationLiterals ++ literalsAt (.pageSize []) r.paging.pageSize

/-- The parts of a request in the order of visits. -/
abbrev Parts : Type :=
  List Segment × Option Expr × List Transformation × List SelectItem × List OrderItem ×
    Option Expr × Option Expr × Option (List (String × Expr)) × Option Expr

/-- A request put together of the parts that are visited. -/
def ofParts (count : Bool) : Parts → Request
  | (path, filter, apply, items, orderBy, skip, top, continuation, pageSize) =>
    { path, filter, apply, items, orderBy, paging := ⟨skip, top, pageSize⟩, continuation, count }

/-- The parts are lifted in the order of visits, the page size last. -/
def liftParts : Parts → LiftM Parts :=
  liftPair (List.mapM Segment.lift) <|
    liftPair (Option.mapM (Expr.lift (.filter []))) <|
      liftPair (List.mapM Transformation.lift) <|
        liftPair (List.mapM (SelectItem.lift [])) <|
          liftPair (List.mapM (OrderItem.lift [])) <|
            liftPair (Option.mapM (CountClause.skip.lift [])) <|
              liftPair (Option.mapM (CountClause.top.lift [])) <|
                liftPair (Option.mapM liftContinuation) <|
                  Option.mapM (CountClause.pageSize.lift [])

/-- A request is lifted by its parts. -/
theorem lift_ofParts (count : Bool) (parts : Parts) :
    Request.lift (ofParts count parts) = ofParts count <$> liftParts parts := by
  simp [ofParts, Request.lift, Transformation.liftAll_eq, SelectItem.liftAll_eq, liftParts,
    liftPair]

/-- **A request is lifted as it should be.** -/
theorem lifts (r : Request) : Lifts Request.lift r.literals r := by
  let parts : Parts := (r.path, r.filter, r.apply, r.items, r.orderBy, r.paging.skip,
    r.paging.top, r.continuation, r.paging.pageSize)
  have hparts : Lifts liftParts _ parts :=
    .pair (.listAt fun segment _ => Segment.lifts segment) <|
      .pair (.optionAt fun e _ => Expr.lifts (.filter []) e) <|
        .pair (.listAt fun step _ => Transformation.lifts step) <|
          .pair (.list fun item _ => SelectItem.lifts [] item) <|
            .pair (.listAt fun item _ => OrderItem.lifts [] item) <|
              .pair (.optionAt fun e _ => CountClause.lifts .skip [] e) <|
                .pair (.optionAt fun e _ => CountClause.lifts .top [] e) <|
                  .pair (.option fun values _ => liftContinuation_lifts values)
                    (.optionAt fun e _ => CountClause.lifts .pageSize [] e)
  have hrequest : Lifts Request.lift _ (ofParts r.count parts) :=
    .map (ofParts r.count) (lift_ofParts r.count) (fun p => by simp [ofParts, Piece.leaves])
      (fun f p => by simp [ofParts, Piece.mapLeaves]) hparts
  simp only [literals, SelectItem.literalsAll_eq, List.append_assoc]
  exact hrequest

/-- **What normalizing has done**, whatever the hash. -/
theorem lifted_of_normalizeWith {hash : ByteHash} {r : Request} {n : Normalized}
    (h : r.normalizeWith hash = .ok n) :
    ∃ s, Lifted Request.lift r.literals r .start n.shape.request s ∧
      n.arguments = s.arguments ∧ n.shape.isCacheable = s.modelled ∧
      n.shape.hash = hash n.shape.request.digest := by
  rw [normalizeWith] at h
  cases hrun : r.lift.run .start with
  | error e =>
    rw [hrun] at h
    cases h
  | ok result =>
    rw [hrun] at h
    cases h
    exact ⟨result.2, lifts r hrun, rfl, rfl, rfl⟩

end Request

end QueryPlans
