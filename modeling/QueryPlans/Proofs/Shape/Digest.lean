import QueryPlans.Proofs.Request.Leaves
import QueryPlans.Shape.Digest

/-!
# Proofs/Shape/Digest — a digest tells no more than what erasing keeps

A digest spells a parameter by its type and nothing else, so a lifted piece and the piece without
the names of its parameters have one digest (`Forgets`).  Lifted requests that keep the same of
their literals therefore have one digest, and one hash under every hash function.
-/

namespace QueryPlans

open Piece

section

variable {α : Type} [Piece α]

/-- **A digest as it should be**: of a lifted piece it tells no more than what erasing keeps. -/
def Forgets {β : Type} (digest : α → β) (a : α) : Prop :=
  isLifted a = true → digest (erase a) = digest a

/-- A digest in pieces forgets what each piece forgets. -/
theorem Forgets.flatMap {digest : α → List UInt8} {as : List α} (h : ∀ a ∈ as, Forgets digest a) :
    Forgets (List.flatMap digest) as := by
  intro hA
  induction as with
  | nil => rfl
  | cons a rest ih =>
    rw [List.forall_mem_cons] at h
    rw [isLifted, allLeaves_cons, Bool.and_eq_true] at hA
    rw [erase_cons, List.flatMap_cons, List.flatMap_cons, h.1 hA.1, ih h.2 hA.2]

@[simp] theorem length_erase (as : List α) : (erase as).length = as.length := List.length_map _

/-- The number of members is digested too, and erasing leaves it. -/
theorem Forgets.list {digest : α → List UInt8} {as : List α} (h : ∀ a ∈ as, Forgets digest a) :
    Forgets (Digest.list digest) as := by
  intro hA
  rw [Digest.list, Digest.list, length_erase, Forgets.flatMap h hA]

/-- So is the presence of a clause. -/
theorem Forgets.option {digest : α → List UInt8} {a : Option α} (h : ∀ b ∈ a, Forgets digest b) :
    Forgets (Digest.option digest) a := by
  intro hA
  cases a with
  | none => rfl
  | some b => exact h b rfl hA

theorem presence_erase (a : Option α) : Digest.presence (erase a) = Digest.presence a := by
  cases a <;> rfl

end

/-! ## Expressions -/

theorem Expr.digestAll_eq (es : List Expr) : Expr.digestAll es = es.flatMap Expr.digest := by
  induction es with
  | nil => rfl
  | cons e rest ih => rw [Expr.digestAll, ih, List.flatMap_cons]

/-- **The digest of an expression forgets its values**: of a literal just the type is digested. -/
theorem Expr.forgets_digest (e : Expr) : Forgets Expr.digest e := by
  induction e with
  | literal v =>
    intro hA
    cases hA
  | parameter slot => exact fun _ => rfl
  | property path => exact fun _ => rfl
  | binary op left right ihl ihr =>
    intro hA
    rw [isLifted, Expr.allLeaves_binary, Bool.and_eq_true] at hA
    rw [Expr.erase_binary, Expr.digest, Expr.digest, ihl hA.1, ihr hA.2]
  | unary op operand ih =>
    intro hA
    rw [Expr.erase_unary, Expr.digest, Expr.digest, ih hA]
  | call function args ih =>
    intro hA
    rw [isLifted, Expr.allLeaves_call] at hA
    rw [Expr.erase_call, Expr.digest, Expr.digest, Expr.digestAll_eq, Expr.digestAll_eq,
      length_erase, Forgets.flatMap ih hA]
  | lambda quantifier source binder body ih =>
    intro hA
    rw [Expr.erase_lambda, Expr.digest, Expr.digest, ih hA]
  | oneOf operand items ih ihs =>
    intro hA
    rw [isLifted, Expr.allLeaves_oneOf, Bool.and_eq_true] at hA
    rw [Expr.erase_oneOf, Expr.digest, Expr.digest, Expr.digestAll_eq, Expr.digestAll_eq,
      length_erase, ih hA.1, Forgets.flatMap ihs hA.2]
  | unmodelled text => exact fun _ => rfl

/-! ## Clauses -/

theorem OrderItem.forgets_digest (item : OrderItem) : Forgets OrderItem.digest item := by
  intro hA
  exact congrArg (Digest.word item.direction.tag ++ ·) (Expr.forgets_digest item.key hA)

theorem Aggregate.forgets_digest (item : Aggregate) : Forgets Aggregate.digest item := by
  intro hA
  exact congrArg (Digest.word item.method.tag ++ Digest.text item.name ++ ·)
    (Expr.forgets_digest item.operand hA)

theorem Computed.forgets_digest (item : Computed) : Forgets Computed.digest item := by
  intro hA
  exact congrArg (Digest.text item.name ++ ·) (Expr.forgets_digest item.value hA)

theorem Transformation.digestAll_eq (steps : List Transformation) :
    Transformation.digestAll steps = steps.flatMap Transformation.digest := by
  induction steps with
  | nil => rfl
  | cons step rest ih => rw [Transformation.digestAll, ih, List.flatMap_cons]

/-- The digest of a pipeline forgets the values in its steps. -/
theorem Transformation.forgets_digest (step : Transformation) :
    Forgets Transformation.digest step := by
  induction step with
  | filter condition =>
    intro hA
    rw [Transformation.erase_filter, Transformation.digest, Transformation.digest,
      Expr.forgets_digest condition hA]
  | groupBy properties nested ih =>
    intro hA
    rw [isLifted, Transformation.allLeaves_groupBy] at hA
    rw [Transformation.erase_groupBy, Transformation.digest, Transformation.digest,
      Transformation.digestAll_eq, Transformation.digestAll_eq, length_erase, Forgets.flatMap ih hA]
  | aggregate items =>
    intro hA
    rw [Transformation.erase_aggregate, Transformation.digest, Transformation.digest,
      Forgets.flatMap (fun item _ => Aggregate.forgets_digest item) hA]
  | compute items =>
    intro hA
    rw [Transformation.erase_compute, Transformation.digest, Transformation.digest,
      Forgets.flatMap (fun item _ => Computed.forgets_digest item) hA]

/-- Of the counts only their presence is digested, whether they are lifted or not. -/
theorem Paging.digest_erase (paging : Paging) : (erase paging).digest = paging.digest := by
  obtain ⟨skip, top, pageSize⟩ := paging
  rw [Paging.erase_mk, Paging.digest, Paging.digest, presence_erase, presence_erase, presence_erase]

theorem SelectItem.digestAll_eq (items : List SelectItem) :
    SelectItem.digestAll items = items.flatMap SelectItem.digest := by
  induction items with
  | nil => rfl
  | cons item rest ih => rw [SelectItem.digestAll, ih, List.flatMap_cons]

/-- The digest of an item forgets the values in its clauses and items. -/
theorem SelectItem.forgets_digest (item : SelectItem) : Forgets SelectItem.digest item := by
  induction item with
  | wildcard => exact fun _ => rfl
  | property path => exact fun _ => rfl
  | expand path clauses items ih =>
    intro hA
    obtain ⟨filter, orderBy, paging, count, levels, nextLink⟩ := clauses
    simp only [isLifted, SelectItem.allLeaves_expand, ExpandClauses.allLeaves_eq,
      Bool.and_eq_true] at hA
    have hfilter := Forgets.option (fun e _ => Expr.forgets_digest e) hA.1.1.1
    have horder := Forgets.list (fun item _ => OrderItem.forgets_digest item) hA.1.1.2
    have hitems := Forgets.flatMap ih hA.2
    simp only [SelectItem.erase_expand, ExpandClauses.erase_mk, SelectItem.digest, hfilter, horder,
      SelectItem.digestAll_eq, length_erase, hitems, Paging.digest_erase]
    rfl

/-! ## Requests -/

theorem forgets_keyPartDigest (part : String × Expr) : Forgets keyPartDigest part := by
  intro hA
  exact congrArg (Digest.text part.1 ++ ·) (Expr.forgets_digest part.2 hA)

/-- Parts of a key are digested by name and value, the values forgotten. -/
theorem Segment.forgets_keyDigest (segment : Segment) : Forgets Segment.keyDigest segment := by
  intro hA
  cases segment with
  | key parts => exact Forgets.list (fun part _ => forgets_keyPartDigest part) hA
  | _ => rfl

/-- The name that a segment is addressed by has no value in it. -/
theorem Segment.identifier_erase (segment : Segment) :
    (erase segment).identifier = segment.identifier := by
  cases segment <;> rfl

/-- Of a path the ends are digested by name, and the keys with their values forgotten. -/
theorem forgets_pathDigest (path : List Segment) : Forgets pathDigest path := by
  intro hA
  have hkeys := Forgets.flatMap (fun segment _ => Segment.forgets_keyDigest segment) hA
  have hfirst : (erase path).head? = path.head?.map erase := List.head?_map
  have hlast : (erase path).getLast? = path.getLast?.map erase := List.getLast?_map
  simp only [pathDigest, length_erase, hkeys, hfirst, hlast]
  cases path.head? with
  | none => rfl
  | some first =>
    cases path.getLast? with
    | none => rfl
    | some last => simp only [Option.map_some, Segment.identifier_erase]

/-- Of a continuation its names are digested. -/
theorem continuationDigest_erase (values : Option (List (String × Expr))) :
    continuationDigest (erase values) = continuationDigest values := by
  cases values with
  | none => rfl
  | some values => exact congrArg (Digest.continuationMark ++ ·) (List.flatMap_map _ _ values)

/-- **Of a lifted request the digest tells no more than what erasing keeps.** -/
theorem Request.forgets_digest (r : Request) : Forgets Request.digest r := by
  intro hA
  obtain ⟨path, filter, apply, items, orderBy, paging, continuation, count⟩ := r
  simp only [isLifted, Request.allLeaves_eq, Bool.and_eq_true] at hA
  obtain ⟨⟨⟨⟨⟨⟨hpath, hfilter⟩, happly⟩, hitems⟩, horder⟩, -⟩, -⟩ := hA
  have hpath := forgets_pathDigest path hpath
  have hfilter := Forgets.option (fun e _ => Expr.forgets_digest e) hfilter
  have happly := Forgets.flatMap (fun step _ => Transformation.forgets_digest step) happly
  have hitems := Forgets.flatMap (fun item _ => SelectItem.forgets_digest item) hitems
  have horder := Forgets.list (fun item _ => OrderItem.forgets_digest item) horder
  simp only [Request.erase_mk, Request.digest, hpath, hfilter, Transformation.digestAll_eq, happly,
    SelectItem.digestAll_eq, hitems, length_erase, horder, continuationDigest_erase,
    Paging.digest_erase]

end QueryPlans
