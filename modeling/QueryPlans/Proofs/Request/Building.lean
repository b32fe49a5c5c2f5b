import QueryPlans.Request.Builder
import QueryPlans.Proofs.Except

/-!
# Proofs/Request/Building — the first call that is at fault

A program makes its calls in depth-first order: a step, then the steps within it, then the next one
(`RequestStep.executedAll`).  Whether a call is at fault is seen from the call alone and from
whether the request has a path by then (`Call.fault?`).  A request is refused for the first call at
fault, and for its path only if no call is (`Request.build_fails_first`).

Steps of an expansion may also run on behind a fault, with the first one noted (`Recording`).  That
comes to the same as stopping there (`ExpandStep.outcome_recordAll`).
-/

namespace QueryPlans

/-! ## Calls -/

/-- Why a count cannot limit a collection. -/
def countFault? (fault : BuildError) (n : Int64) : Option BuildError :=
  if n < 0 then some fault else none

/-- Why a navigation cannot be expanded. -/
def navigationFault? (navigation : PropertyPath) : Option BuildError :=
  if navigation.segments.isEmpty then some .emptyExpandPath else none

namespace ExpandStep

/-- What is wrong with a step of an expansion, whatever its own steps are. -/
def fault? : ExpandStep → Option BuildError
  | expand navigation _ => navigationFault? navigation
  | skip n => countFault? .negativeSkip n
  | top n => countFault? .negativeTop n
  | pageSize n => countFault? .negativePageSize n
  | filter _ | select _ | orderBy _ _ | count | levels _ => none

mutual

/-- The steps that a step makes in the order of execution, itself first.  Steps within an expansion
are not made if it has no path. -/
def executed : ExpandStep → List ExpandStep
  | expand navigation steps =>
    expand navigation steps :: if navigation.segments.isEmpty then [] else executedAll steps
  | step => [step]

/-- The steps that several steps make, each followed by those within it. -/
def executedAll : List ExpandStep → List ExpandStep
  | [] => []
  | step :: rest => step.executed ++ executedAll rest

end

/-- The first fault of a program. -/
def firstFault? (steps : List ExpandStep) : Option BuildError :=
  (executedAll steps).findSome? fault?

end ExpandStep

namespace RequestStep

/-- Whether a step adds a segment to the path. -/
def addresses : RequestStep → Bool
  | entitySet _ | key _ | navigate _ | segment _ => true
  | _ => false

/-- What is wrong with a step of a request, whatever the steps within it are. -/
def fault? (addressed : Bool) : RequestStep → Option BuildError
  | entitySet _ => if addressed then some .entitySetNotFirst else none
  | key parts =>
    if addressed then if parts.isEmpty then some .emptyKey else none else some .keyNotPreceded
  | navigate _ => if addressed then none else some .navigationNotPreceded
  | expand navigation _ => navigationFault? navigation
  | skip n => countFault? .negativeSkip n
  | top n => countFault? .negativeTop n
  | pageSize n => countFault? .negativePageSize n
  | resume continuation => if continuation.values.isEmpty then some .emptyContinuation else none
  | segment _ | filter _ | apply _ | select _ | item _ | orderBy _ _ | count => none

end RequestStep

/-- A call that a program makes: a step of the request, with whether the path has a segment by then,
or a step of an expansion at any depth. -/
inductive Call where
  | outer (addressed : Bool) (step : RequestStep)
  | inner (step : ExpandStep)

namespace Call

/-- What is wrong with a call. -/
def fault? : Call → Option BuildError
  | outer addressed step => step.fault? addressed
  | inner step => step.fault?

/-- The fault of the first call that is at fault. -/
def firstFault? (calls : List Call) : Option BuildError := calls.findSome? fault?

/-- The first fault of two programs is the one of the first, or else of the second. -/
theorem firstFault?_append (calls more : List Call) :
    firstFault? (calls ++ more) = (firstFault? calls).or (firstFault? more) :=
  List.findSome?_append

end Call

namespace RequestStep

/-- The calls that a step makes in the order of execution, itself first. -/
def executed (addressed : Bool) : RequestStep → List Call
  | expand navigation steps =>
    .outer addressed (expand navigation steps) ::
      if navigation.segments.isEmpty then [] else (ExpandStep.executedAll steps).map .inner
  | step => [.outer addressed step]

/-- The calls of a program.  Nothing is called behind a step that is at fault, be it at some depth
within. -/
def executedAll (addressed : Bool) : List RequestStep → List Call
  | [] => []
  | step :: rest =>
    step.executed addressed ++
      if (Call.firstFault? (step.executed addressed)).isSome then []
      else executedAll (addressed || step.addresses) rest

end RequestStep

/-! ## Programs that go on -/

/-- A program that goes on where another one ends: behind its last step, or among the steps of the
expansion that this is. -/
inductive ExpandStep.GoesOn : List ExpandStep → List ExpandStep → Prop
  | behind (steps more : List ExpandStep) : GoesOn steps (steps ++ more)
  | within (before : List ExpandStep) (navigation : PropertyPath) {steps steps' : List ExpandStep}
    (h : GoesOn steps steps') (more : List ExpandStep) :
    GoesOn (before ++ [.expand navigation steps]) (before ++ .expand navigation steps' :: more)

@[inherit_doc ExpandStep.GoesOn]
inductive RequestStep.GoesOn : List RequestStep → List RequestStep → Prop
  | behind (steps more : List RequestStep) : GoesOn steps (steps ++ more)
  | within (before : List RequestStep) (navigation : PropertyPath) {steps steps' : List ExpandStep}
    (h : ExpandStep.GoesOn steps steps') (more : List RequestStep) :
    GoesOn (before ++ [.expand navigation steps]) (before ++ .expand navigation steps' :: more)

/-! ## Running on behind faults -/

/-- What the steps of an expansion have asked for so far, and the first fault among them. -/
structure Recording where
  expansion : Expansion
  fault? : Option BuildError

namespace Recording

/-- Nothing recorded yet. -/
def empty : Recording := ⟨.empty, none⟩

/-- What a step comes to.  A fault behind another one is not noted. -/
def note (recording : Recording) : Except BuildError Expansion → Recording
  | .ok x => { recording with expansion := x }
  | .error e => { recording with fault? := recording.fault?.or (some e) }

/-- What the builder hands out: the expansion, or the fault that it remembers. -/
def outcome (recording : Recording) : Except BuildError Expansion :=
  match recording.fault? with
  | some e => .error e
  | none => .ok recording.expansion

end Recording

namespace ExpandStep

mutual

/-- A step, made also behind a fault, as are the steps within it. -/
def record : ExpandStep → Recording → Recording
  | expand navigation steps, recording =>
    let item := expandItem navigation (recordAll steps .empty).outcome
    recording.note (item.map fun item => recording.expansion.addItems [item])
  | step, recording => recording.note (step.run recording.expansion)

/-- The recording of several steps in order. -/
def recordAll : List ExpandStep → Recording → Recording
  | [], recording => recording
  | step :: rest, recording => recordAll rest (step.record recording)

end

end ExpandStep

/-! ## Steps -/

theorem faultOf_countLiteral (fault : BuildError) (n : Int64) :
    faultOf (countLiteral fault n) = countFault? fault n := by
  unfold countLiteral countFault?
  split <;> rfl

/-- An empty path is found before the steps within are made. -/
theorem faultOf_expandItem (navigation : PropertyPath) (inner : Except BuildError Expansion) :
    faultOf (expandItem navigation inner) = (navigationFault? navigation).or (faultOf inner) := by
  unfold expandItem navigationFault?
  split
  · rfl
  · rw [faultOf_map, Option.none_or]

theorem faultOf_bind_ok {α β : Type} {x : Except BuildError α} (f : α → β) :
    faultOf (x >>= fun a => .ok (f a)) = faultOf x := by
  rw [faultOf_bind fun _ _ => faultOf_ok _, Option.or_none]

/-- Induction on a step of an expansion and on the steps within it. -/
theorem ExpandStep.induct {motive : ExpandStep → Prop}
    (filter : ∀ condition, motive (.filter condition)) (select : ∀ paths, motive (.select paths))
    (expand : ∀ navigation steps, (∀ step ∈ steps, motive step) → motive (.expand navigation steps))
    (orderBy : ∀ key direction, motive (.orderBy key direction)) (skip : ∀ n, motive (.skip n))
    (top : ∀ n, motive (.top n)) (pageSize : ∀ n, motive (.pageSize n)) (count : motive .count)
    (levels : ∀ n, motive (.levels n)) (step : ExpandStep) : motive step :=
  step.rec (motive_2 := fun steps => ∀ step ∈ steps, motive step) filter select expand orderBy skip
    top pageSize count levels (List.forall_mem_nil _)
    fun _ _ hstep hrest => List.forall_mem_cons.2 ⟨hstep, hrest⟩

namespace ExpandStep

/-- A step is looked at with the steps that it makes, before those behind it. -/
theorem firstFault?_cons (step : ExpandStep) (rest : List ExpandStep) :
    firstFault? (step :: rest) = (step.executed.findSome? fault?).or (firstFault? rest) := by
  rw [firstFault?, executedAll, List.findSome?_append, firstFault?]

/-- The same of steps within an expansion. -/
theorem firstFault?_append (steps more : List ExpandStep) :
    firstFault? (steps ++ more) = (firstFault? steps).or (firstFault? more) := by
  induction steps with
  | nil => rfl
  | cons step rest ih =>
    rw [List.cons_append, firstFault?_cons, ih, firstFault?_cons, Option.or_assoc]

/-- An expansion is at fault before the steps within it are. -/
theorem findSome?_executed_expand (navigation : PropertyPath) (steps : List ExpandStep) :
    (expand navigation steps).executed.findSome? fault? =
      (navigationFault? navigation).or (firstFault? steps) := by
  rw [executed, List.findSome?_cons, fault?, navigationFault?]
  by_cases hpath : navigation.segments.isEmpty = true
  · rw [if_pos hpath, Option.some_or]
  · rw [if_neg hpath, if_neg hpath, Option.none_or, firstFault?]

/-- **A program stops at its first fault**, if each of its steps does. -/
theorem faultOf_runAll {steps : List ExpandStep}
    (h : ∀ step ∈ steps, ∀ x, faultOf (step.run x) = step.executed.findSome? fault?)
    (x : Expansion) : faultOf (runAll steps x) = firstFault? steps := by
  induction steps generalizing x with
  | nil => rfl
  | cons step rest ih =>
    rw [List.forall_mem_cons] at h
    rw [runAll, faultOf_bind fun y _ => ih h.2 y, h.1, firstFault?_cons]

/-- **A step fails with the first fault** that it meets, whatever was asked for before. -/
theorem faultOf_run (step : ExpandStep) (x : Expansion) :
    faultOf (step.run x) = step.executed.findSome? fault? := by
  have hself {step : ExpandStep} (h : step.executed = [step]) :
      step.executed.findSome? fault? = step.fault? := by
    rw [h, List.findSome?_singleton]
  induction step using ExpandStep.induct generalizing x with
  | expand navigation steps ih =>
    rw [run, faultOf_bind_ok, faultOf_expandItem, faultOf_runAll ih, findSome?_executed_expand]
  | skip n => rw [run, faultOf_bind_ok, faultOf_countLiteral, hself rfl, fault?]
  | top n => rw [run, faultOf_bind_ok, faultOf_countLiteral, hself rfl, fault?]
  | pageSize n => rw [run, faultOf_bind_ok, faultOf_countLiteral, hself rfl, fault?]
  | _ => rfl

/-- **What was at fault stays so** in a program that goes on. -/
theorem GoesOn.firstFault? {steps steps' : List ExpandStep} (h : GoesOn steps steps') :
    ∃ later?, ExpandStep.firstFault? steps' = (ExpandStep.firstFault? steps).or later? := by
  induction h with
  | behind steps more => exact ⟨_, firstFault?_append steps more⟩
  | @within before navigation steps steps' _ more ih =>
    obtain ⟨later?, hlater⟩ := ih
    refine ⟨later?.or (ExpandStep.firstFault? more), ?_⟩
    simp only [firstFault?_append, firstFault?_cons, findSome?_executed_expand, hlater,
      Option.or_assoc]
    rfl

/-- **A recording goes on as the builder does**: the first fault stays, and nothing is added behind
it. -/
theorem outcome_note (recording : Recording) (next : Expansion → Except BuildError Expansion) :
    (recording.note (next recording.expansion)).outcome = recording.outcome >>= next := by
  obtain ⟨expansion, fault?⟩ := recording
  cases fault? with
  | none => cases hnext : next expansion <;> simp [Recording.note, Recording.outcome, hnext]
  | some e => cases hnext : next expansion <;> simp [Recording.note, Recording.outcome]

/-- Several steps are recorded as they are run if each one is. -/
theorem outcome_recordAll_of_forall {steps : List ExpandStep}
    (h : ∀ step ∈ steps, ∀ recording : Recording,
      (step.record recording).outcome = recording.outcome >>= step.run) (recording : Recording) :
    (recordAll steps recording).outcome = recording.outcome >>= runAll steps := by
  induction steps generalizing recording with
  | nil =>
    rw [recordAll]
    cases recording.outcome <;> rfl
  | cons step rest ih =>
    rw [List.forall_mem_cons] at h
    rw [recordAll, ih h.2, h.1]
    cases recording.outcome <;> rfl

/-- Recording a step and running it come to the same, through expansions at any depth. -/
theorem outcome_record (step : ExpandStep) (recording : Recording) :
    (step.record recording).outcome = recording.outcome >>= step.run := by
  induction step using ExpandStep.induct generalizing recording with
  | expand navigation steps ih =>
    have hinner : (recordAll steps .empty).outcome = runAll steps .empty :=
      outcome_recordAll_of_forall ih .empty
    rw [record, hinner]
    exact outcome_note recording fun x => (expandItem navigation _).map fun item =>
      x.addItems [item]
  | _ => exact outcome_note recording _

/-- **Running on behind a fault comes to the same** as stopping there. -/
theorem outcome_recordAll (steps : List ExpandStep) (recording : Recording) :
    (recordAll steps recording).outcome = recording.outcome >>= runAll steps :=
  outcome_recordAll_of_forall (fun step _ => outcome_record step) recording

end ExpandStep

/-! ## Requests -/

/-- Whether a request has a path. -/
def Request.isAddressed (r : Request) : Bool := !r.path.isEmpty

namespace RequestStep

variable {r r' : Request}

theorem isAddressed_addSegment (r : Request) (s : Segment) :
    (r.addSegment s).isAddressed = true := by
  simp [Request.isAddressed, Request.addSegment]

/-- An expansion is at fault before the steps within it are. -/
theorem firstFault?_executed_expand (addressed : Bool) (navigation : PropertyPath)
    (steps : List ExpandStep) :
    Call.firstFault? ((expand navigation steps).executed addressed) =
      (navigationFault? navigation).or (ExpandStep.firstFault? steps) := by
  rw [executed, Call.firstFault?, List.findSome?_cons, Call.fault?, fault?, navigationFault?]
  by_cases hpath : navigation.segments.isEmpty = true
  · rw [if_pos hpath, Option.some_or]
  · rw [if_neg hpath, if_neg hpath, Option.none_or, List.findSome?_map]
    rfl

/-- **A step fails with the first fault** among its calls. -/
theorem faultOf_run (step : RequestStep) (r : Request) :
    faultOf (step.run r) = Call.firstFault? (step.executed r.isAddressed) := by
  have hself {step : RequestStep} (h : step.executed r.isAddressed = [.outer r.isAddressed step]) :
      Call.firstFault? (step.executed r.isAddressed) = step.fault? r.isAddressed := by
    rw [h, Call.firstFault?, List.findSome?_singleton, Call.fault?]
  cases step with
  | expand navigation steps =>
    rw [run, faultOf_bind_ok, faultOf_expandItem,
      ExpandStep.faultOf_runAll fun step _ => step.faultOf_run, firstFault?_executed_expand]
  | entitySet name =>
    rw [hself rfl, run, fault?, Request.isAddressed]
    cases r.path.isEmpty <;> rfl
  | key parts =>
    rw [hself rfl, run, fault?, Request.isAddressed]
    cases r.path.isEmpty <;> cases parts.isEmpty <;> rfl
  | navigate name =>
    rw [hself rfl, run, fault?, Request.isAddressed]
    cases r.path.isEmpty <;> rfl
  | skip n => rw [hself rfl, run, faultOf_bind_ok, faultOf_countLiteral, fault?]
  | top n => rw [hself rfl, run, faultOf_bind_ok, faultOf_countLiteral, fault?]
  | pageSize n => rw [hself rfl, run, faultOf_bind_ok, faultOf_countLiteral, fault?]
  | resume continuation =>
    rw [hself rfl, run, fault?]
    cases continuation.values.isEmpty <;> rfl
  | _ => rfl

/-- A path starts with the first step that adds a segment. -/
theorem isAddressed_of_run {step : RequestStep} (h : step.run r = .ok r') :
    r'.isAddressed = (r.isAddressed || step.addresses) := by
  cases step with
  | entitySet name | navigate name =>
    rw [run] at h
    split at h <;> cases h
    rw [isAddressed_addSegment, addresses, Bool.or_true]
  | key parts =>
    rw [run] at h
    split at h
    · cases h
    · split at h <;> cases h
      rw [isAddressed_addSegment, addresses, Bool.or_true]
  | segment s =>
    cases h
    rw [isAddressed_addSegment, addresses, Bool.or_true]
  | expand navigation steps | skip n | top n | pageSize n =>
    obtain ⟨_, -, h⟩ := bind_eq_ok_iff.1 h
    cases h
    exact (Bool.or_false _).symm
  | resume continuation =>
    rw [run] at h
    split at h <;> cases h
    exact (Bool.or_false _).symm
  | _ =>
    cases h
    exact (Bool.or_false _).symm

/-- What stands behind a fault is not called, and need not be: the first fault is found before. -/
theorem firstFault?_executedAll_cons (addressed : Bool) (step : RequestStep)
    (rest : List RequestStep) :
    Call.firstFault? (executedAll addressed (step :: rest)) =
      (Call.firstFault? (step.executed addressed)).or
        (Call.firstFault? (executedAll (addressed || step.addresses) rest)) := by
  rw [executedAll, Call.firstFault?_append]
  cases Call.firstFault? (step.executed addressed) <;> rfl

/-- **A program stops at the first fault** among its calls. -/
theorem faultOf_runAll (steps : List RequestStep) (r : Request) :
    faultOf (runAll steps r) = Call.firstFault? (executedAll r.isAddressed steps) := by
  induction steps generalizing r with
  | nil => rfl
  | cons step rest ih =>
    have hrest (r' : Request) (hrun : step.run r = .ok r') : faultOf (runAll rest r') =
        Call.firstFault? (executedAll (r.isAddressed || step.addresses) rest) := by
      rw [ih, isAddressed_of_run hrun]
    rw [runAll, faultOf_bind hrest, faultOf_run, firstFault?_executedAll_cons]

/-- A path has a segment once a step has added one. -/
theorem isAddressed_of_runAll {steps : List RequestStep} (h : runAll steps r = .ok r') :
    r'.isAddressed = (r.isAddressed || steps.any addresses) := by
  induction steps generalizing r with
  | nil =>
    cases h
    exact (Bool.or_false _).symm
  | cons step rest ih =>
    obtain ⟨next, hstep, hrest⟩ := bind_eq_ok_iff.1 h
    rw [ih hrest, isAddressed_of_run hstep, List.any_cons, Bool.or_assoc]

/-- A program in two parts. -/
theorem runAll_append (steps more : List RequestStep) (r : Request) :
    runAll (steps ++ more) r = runAll steps r >>= runAll more := by
  induction steps generalizing r with
  | nil => rfl
  | cons step rest ih =>
    rw [List.cons_append, runAll, runAll]
    cases step.run r with
    | error e => rfl
    | ok next => exact ih next

/-- **What was at fault stays so** in a program that goes on. -/
theorem GoesOn.runAll {steps steps' : List RequestStep} {e : BuildError} (h : GoesOn steps steps')
    (hfault : RequestStep.runAll steps r = .error e) : RequestStep.runAll steps' r = .error e := by
  cases h with
  | behind steps more => rw [runAll_append, hfault, error_bind]
  | @within before navigation inner inner' hinner more =>
    rw [runAll_append] at hfault ⊢
    cases hbefore : RequestStep.runAll before r with
    | error e' =>
      rw [hbefore] at hfault
      exact hfault
    | ok next =>
      obtain ⟨later?, hlater⟩ := hinner.firstFault?
      rw [hbefore, ok_bind, ← faultOf_eq_some_iff, faultOf_runAll, firstFault?_executedAll_cons,
        firstFault?_executed_expand] at hfault
      rw [ok_bind, ← faultOf_eq_some_iff, faultOf_runAll, firstFault?_executedAll_cons,
        firstFault?_executed_expand, hlater, ← Option.or_assoc]
      have hnone (addressed : Bool) : Call.firstFault? (executedAll addressed []) = none := rfl
      rw [hnone, Option.or_none] at hfault
      rw [hfault, Option.some_or, Option.some_or]

end RequestStep

namespace Request

/-- A program without a fault still has to give the request a path. -/
theorem faultOf_build (steps : List RequestStep) : faultOf (build steps) =
    (Call.firstFault? (RequestStep.executedAll false steps)).or
      (if steps.any RequestStep.addresses then none else some .emptyPath) := by
  have hpath (r : Request) (hrun : RequestStep.runAll steps .empty = .ok r) :
      faultOf (if r.path.isEmpty then .error .emptyPath else .ok r : Except BuildError Request) =
        if steps.any RequestStep.addresses then none else some .emptyPath := by
    have haddressed : (!r.path.isEmpty) = steps.any RequestStep.addresses :=
      RequestStep.isAddressed_of_runAll hrun
    rw [← haddressed]
    cases r.path.isEmpty <;> rfl
  rw [build, faultOf_bind hpath, RequestStep.faultOf_runAll]
  rfl

/-- **Building fails with the first fault of a call**, or for want of a path when no call is at
fault. -/
theorem build_eq_error_iff {steps : List RequestStep} {e : BuildError} : build steps = .error e ↔
    Call.firstFault? (RequestStep.executedAll false steps) = some e ∨
      (∀ call ∈ RequestStep.executedAll false steps, call.fault? = none) ∧
        (∀ step ∈ steps, step.addresses = false) ∧ e = .emptyPath := by
  have hpath : (if steps.any RequestStep.addresses then none else some BuildError.emptyPath) =
      some e ↔ (∀ step ∈ steps, step.addresses = false) ∧ e = .emptyPath := by
    simp only [← Bool.not_eq_true, ← List.any_eq_false]
    cases steps.any RequestStep.addresses <;> simp [eq_comm]
  rw [← faultOf_eq_some_iff, faultOf_build, Option.or_eq_some_iff, hpath, Call.firstFault?,
    List.findSome?_eq_none_iff]

/-- **A request is refused for the first call at fault.**  A program builds a request unless a call
that it makes, at whatever depth, is at fault or no step gives the request a path.  The first fault
in the order of calls is the one reported, that of the path only if there is no other.  Whatever the
program goes on with behind the fault, at any depth, does not change it, not even where steps run on
behind faults. -/
theorem build_fails_first (steps : List RequestStep) :
    let calls := RequestStep.executedAll false steps
    let isPathless := ∀ step ∈ steps, step.addresses = false
    ((∃ e, build steps = .error e) ↔ (∃ call ∈ calls, call.fault?.isSome) ∨ isPathless) ∧
    (∀ e, build steps = .error e ↔
      Call.firstFault? calls = some e ∨
        (∀ call ∈ calls, call.fault? = none) ∧ isPathless ∧ e = .emptyPath) ∧
    (∀ e steps', Call.firstFault? calls = some e → RequestStep.GoesOn steps steps' →
      build steps' = .error e) ∧
    ∀ inner recording,
      (ExpandStep.recordAll inner recording).outcome =
        recording.outcome >>= ExpandStep.runAll inner := by
  intro calls isPathless
  refine ⟨?_, fun e => build_eq_error_iff, fun e steps' hfirst hgoesOn => ?_,
    ExpandStep.outcome_recordAll⟩
  · simp only [build_eq_error_iff]
    constructor
    · rintro ⟨e, hfirst | ⟨-, hpath, -⟩⟩
      · exact .inl (List.findSome?_isSome_iff.1 (Option.isSome_of_eq_some hfirst))
      · exact .inr hpath
    · intro h
      cases hfirst : Call.firstFault? calls with
      | some e => exact ⟨e, .inl rfl⟩
      | none =>
        have hnone := List.findSome?_eq_none_iff.1 hfirst
        obtain ⟨call, hcall, hfault⟩ | hpath := h
        · rw [hnone call hcall] at hfault
          cases hfault
        · exact ⟨_, .inr ⟨hnone, hpath, rfl⟩⟩
  · have hrun : RequestStep.runAll steps .empty = .error e :=
      faultOf_eq_some_iff.1 ((RequestStep.faultOf_runAll steps .empty).trans hfirst)
    rw [build, hgoesOn.runAll hrun, error_bind]

/-- Orders within customers are given no count: what follows among them, and behind them, is not
reported.  Without a customer there is no path either, which is reported only for a program without
a fault of its own. -/
theorem build_fails_first_withinCustomers :
    let orders : List ExpandStep := [.count, .top (-3)]
    let more : List ExpandStep := [.skip (-1), .expand ⟨[]⟩ []]
    let customers (steps : List ExpandStep) : List RequestStep :=
      [.entitySet "Customers", .expand ⟨["Orders"]⟩ steps]
    build (customers orders) = .error .negativeTop ∧
      build (customers (orders ++ more) ++ [.key [], .skip (-1)]) = .error .negativeTop ∧
      build [.key [("Id", .int 1)], .entitySet "Customers"] = .error .keyNotPreceded ∧
      build [.count] = .error .emptyPath ∧ ∃ r, build (customers [.count]) = .ok r := by
  intro orders more customers
  have hcustomers := build_fails_first (customers orders)
  have hfirst : Call.firstFault? (RequestStep.executedAll false (customers orders)) =
      some .negativeTop := by
    decide
  refine ⟨(hcustomers.2.1 _).2 (.inl hfirst), hcustomers.2.2.1 _ _ hfirst ?_,
    ((build_fails_first _).2.1 _).2 (.inl ?_), ((build_fails_first _).2.1 _).2 (.inr ?_), ?_⟩
  · exact .within [.entitySet "Customers"] ⟨["Orders"]⟩ (.behind orders more) [.key [], .skip (-1)]
  · decide
  · decide
  · exact ⟨_, rfl⟩

end Request

end QueryPlans
