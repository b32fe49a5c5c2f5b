import Mathlib.Data.List.Forall2

/-!
# Proofs/Except — computations that may fail, taken apart

A run that succeeds has succeeded at every step, and a run that fails has the fault of one, which is
the first that fails (`foldlM_eq_error_iff`, `faultOf_bind`).  So what the steps come to is what the
run comes to (`ComesTo`), and two runs whose steps come to the same come to the same (`Alike`).
-/

namespace QueryPlans

variable {ε α β γ δ : Type}

/-- Two steps succeed if both do. -/
theorem bind_eq_ok_iff {x : Except ε α} {f : α → Except ε β} {b : β} :
    x >>= f = .ok b ↔ ∃ a, x = .ok a ∧ f a = .ok b := by
  cases x with
  | error e => simp [bind, Except.bind]
  | ok a => simp [bind, Except.bind]

@[simp] theorem ok_bind (a : α) (f : α → Except ε β) : (Except.ok a >>= f) = f a := rfl

@[simp] theorem error_bind (e : ε) (f : α → Except ε β) : (Except.error e >>= f) = .error e := rfl

@[simp] theorem pure_eq_ok (a : α) : (pure a : Except ε α) = .ok a := rfl

@[simp] theorem throw_eq_error (e : ε) : (throw e : Except ε α) = .error e := rfl

theorem mapM_eq_ok {f : α → Except ε β} {g : α → β} {as : List α} (h : ∀ a ∈ as, f a = .ok (g a)) :
    as.mapM f = .ok (as.map g) := by
  induction as with
  | nil => rfl
  | cons a rest ih =>
    rw [List.forall_mem_cons] at h
    rw [List.mapM_cons, h.1, ok_bind, ih h.2, ok_bind, pure_eq_ok, List.map_cons]

/-! ## Walks -/

section

variable {f : α → Except ε Unit} {as : List α} {e : ε}

theorem forM_eq_ok_iff : as.forM f = .ok () ↔ ∀ a ∈ as, f a = .ok () := by
  induction as with
  | nil => exact iff_of_true rfl (List.forall_mem_nil _)
  | cons a rest ih =>
    rw [List.forM, List.forall_mem_cons, ← ih]
    cases f a with
    | error e => simp
    | ok _ => simp

/-- A fold fails at the first element that fails with what those before it have come to. -/
theorem foldlM_eq_error_iff {g : β → α → Except ε β} {b : β} : as.foldlM g b = .error e ↔
    ∃ before a after b', as = before ++ a :: after ∧ before.foldlM g b = .ok b' ∧
      g b' a = .error e := by
  constructor
  · intro h
    induction as generalizing b with
    | nil => cases h
    | cons a rest ih =>
      rw [List.foldlM_cons] at h
      cases ha : g b a with
      | error e' =>
        rw [ha] at h
        cases h
        exact ⟨[], a, rest, b, rfl, rfl, ha⟩
      | ok next =>
        rw [ha, ok_bind] at h
        obtain ⟨before, a', after, b', rfl, hbefore, ha'⟩ := ih h
        refine ⟨a :: before, a', after, b', rfl, ?_, ha'⟩
        rw [List.foldlM_cons, ha, ok_bind, hbefore]
  · rintro ⟨before, a, after, b', rfl, hbefore, ha⟩
    rw [List.foldlM_append, hbefore, ok_bind, List.foldlM_cons, ha, error_bind]

theorem forM_eq_foldlM : as.forM f = as.foldlM (fun _ a => f a) () := by
  induction as with
  | nil => rfl
  | cons a rest ih =>
    rw [List.forM, List.foldlM_cons]
    exact bind_congr fun _ => ih

/-- **A walk fails at the first element that fails.** -/
theorem forM_eq_error_iff : as.forM f = .error e ↔
    ∃ before a after, as = before ++ a :: after ∧ (∀ b ∈ before, f b = .ok ()) ∧
      f a = .error e := by
  simp only [forM_eq_foldlM, foldlM_eq_error_iff, ← forM_eq_ok_iff]
  constructor
  · rintro ⟨before, a, after, _, has, hbefore, ha⟩
    exact ⟨before, a, after, has, hbefore, ha⟩
  · rintro ⟨before, a, after, has, hbefore, ha⟩
    exact ⟨before, a, after, (), has, hbefore, ha⟩

end

/-! ## Outcomes -/

/-- **What a computation comes to**: a fault of one kind, or a value of another. -/
inductive ComesTo (P : ε → Prop) (Q : α → Prop) : Except ε α → Prop
  | error {e : ε} (h : P e) : ComesTo P Q (.error e)
  | ok {a : α} (h : Q a) : ComesTo P Q (.ok a)

/-- **A computation whose faults** are all as a predicate has them. -/
abbrev OnlyFails (P : ε → Prop) (x : Except ε α) : Prop := ComesTo P (fun _ => True) x

section

variable {P : ε → Prop} {Q : α → Prop} {S : β → Prop} {x : Except ε α} {e : ε} {a : α}

theorem ComesTo.of_error (h : ComesTo P Q (.error e)) : P e := by
  cases h with
  | error h => exact h

theorem ComesTo.of_ok (h : ComesTo P Q (.ok a)) : Q a := by
  cases h with
  | ok h => exact h

/-- **Two steps one after the other**: errors of either kind are of the same kind. -/
theorem ComesTo.bind {f : α → Except ε β} (h : ComesTo P Q x)
    (hnext : ∀ a, Q a → ComesTo P S (f a)) : ComesTo P S (x >>= f) := by
  cases h with
  | error h => exact .error h
  | ok h => exact hnext _ h

theorem ComesTo.map {f : α → β} (h : ComesTo P Q x) (hf : ∀ a, Q a → S (f a)) :
    ComesTo P S (x.map f) := by
  cases h with
  | error h => exact .error h
  | ok h => exact .ok (hf _ h)

theorem onlyFails_mapM {f : α → Except ε β} {as : List α} (h : ∀ a ∈ as, OnlyFails P (f a)) :
    OnlyFails P (as.mapM f) := by
  induction as with
  | nil => exact .ok trivial
  | cons a rest ih =>
    rw [List.forall_mem_cons] at h
    rw [List.mapM_cons]
    exact h.1.bind fun b _ => (ih h.2).bind fun bs _ => .ok trivial

/-- **What every step of a fold keeps** holds in the end. -/
theorem comesTo_foldlM {f : β → α → Except ε β} {as : List α}
    (h : ∀ b, S b → ∀ a ∈ as, ComesTo P S (f b a)) {b : β} (hb : S b) :
    ComesTo P S (as.foldlM f b) := by
  induction as generalizing b with
  | nil => exact .ok hb
  | cons a rest ih =>
    rw [List.foldlM_cons]
    exact (h b hb a List.mem_cons_self).bind fun b' hb' =>
      ih (fun b hb a ha => h b hb a (List.mem_cons_of_mem _ ha)) hb'

end

/-- The fault of a computation, if it has one. -/
def faultOf : Except ε α → Option ε
  | .error e => some e
  | .ok _ => none

section

variable {x : Except ε α} {e : ε}

@[simp] theorem faultOf_error (e : ε) : faultOf (.error e : Except ε α) = some e := rfl

@[simp] theorem faultOf_ok (a : α) : faultOf (.ok a : Except ε α) = none := rfl

theorem faultOf_eq_some_iff : faultOf x = some e ↔ x = .error e := by
  cases x <;> simp

theorem faultOf_eq_none_iff : faultOf x = none ↔ ∃ a, x = .ok a := by
  cases x <;> simp

@[simp] theorem faultOf_map (f : α → β) : faultOf (x.map f) = faultOf x := by
  cases x <;> rfl

/-- The fault of a first part comes before that of a second. -/
theorem faultOf_bind {f : α → Except ε β} {fault? : Option ε}
    (h : ∀ a, x = .ok a → faultOf (f a) = fault?) :
    faultOf (x >>= f) = (faultOf x).or fault? := by
  cases x with
  | error e => rfl
  | ok a => exact h a rfl

end

/-! ## Two runs side by side -/

/-- **Computations that come to the same**: to one error, or to values that are related. -/
inductive Alike (R : α → β → Prop) : Except ε α → Except ε β → Prop
  | error (e : ε) : Alike R (.error e) (.error e)
  | ok {a : α} {b : β} (h : R a b) : Alike R (.ok a) (.ok b)

section

variable {R : α → β → Prop} {S : γ → δ → Prop} {x : Except ε α} {y : Except ε β}

/-- Steps that are alike on related results are alike together. -/
theorem Alike.bind {f : α → Except ε γ} {g : β → Except ε δ} (h : Alike R x y)
    (hnext : ∀ a b, R a b → Alike S (f a) (g b)) : Alike S (x >>= f) (y >>= g) := by
  cases h with
  | error e => exact .error e
  | ok h => exact hnext _ _ h

theorem Alike.bind_eq {f : α → Except ε γ} {g : β → Except ε γ} (h : Alike R x y)
    (hnext : ∀ a b, R a b → f a = g b) : x >>= f = y >>= g := by
  cases h with
  | error e => rfl
  | ok h => exact hnext _ _ h

/-- What is known of one side may be kept. -/
theorem Alike.and_right {T : β → Prop} (h : Alike R x y) (hright : ∀ b, y = .ok b → T b) :
    Alike (fun a b => R a b ∧ T b) x y := by
  cases h with
  | error e => exact .error e
  | ok h => exact .ok ⟨h, hright _ rfl⟩

theorem mapM_eq_mapM {f : α → Except ε γ} {g : β → Except ε γ} {as : List α} {bs : List β}
    (h : List.Forall₂ (fun a b => f a = g b) as bs) : as.mapM f = bs.mapM g := by
  induction h with
  | nil => rfl
  | cons head _ ih => rw [List.mapM_cons, List.mapM_cons, head, ih]

end

end QueryPlans
