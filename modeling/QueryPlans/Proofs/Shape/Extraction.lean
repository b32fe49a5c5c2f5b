import QueryPlans.Proofs.Plan.Rebinding

/-!
# Proofs/Shape/Extraction — every literal of a request has its slot

Taking a request apart loses nothing and keeps the order.  The literals of a request are listed
clause by clause in the order of visits, each with its origin (`Request.literals`); the slots are
this list, numbered, and no literal of the request is left out of it or stands in it twice
(`Request.map_snd_literals`).  The values go back to where they were, by the names of their slots
(`normalizeWith_lossless`).
-/

namespace QueryPlans

open Piece

/-! ## Values in order -/

section

variable {α : Type} [Piece α]

/-- The literals of a piece from left to right. -/
def Piece.literals (a : α) : List Scalar := (leaves a).filterMap Leaf.literal?

theorem Piece.literals_list (as : List α) : Piece.literals as = as.flatMap Piece.literals :=
  List.filterMap_flatMap

@[simp] theorem map_snd_literalsAt (origin : SlotOrigin) (a : α) :
    (literalsAt origin a).map Prod.snd = Piece.literals a := by
  rw [literalsAt, List.map_map]
  exact List.map_id _

end

/-- Without their places, the literals of an item are its leaves in the order of visits. -/
theorem SelectItem.map_snd_literals (navigation : List String) (item : SelectItem) :
    (item.literals navigation).map Prod.snd = Piece.literals item := by
  induction item generalizing navigation with
  | wildcard => rfl
  | property path => rfl
  | expand path clauses items ih =>
    have hitems (inner : List String) :
        (items.flatMap (SelectItem.literals inner)).map Prod.snd = Piece.literals items := by
      rw [List.map_flatMap, Piece.literals_list]
      exact List.flatMap_congr fun item hitem => ih item hitem inner
    simp only [SelectItem.literals, literalsAll_eq, List.map_append, map_snd_literalsAt, hitems,
      Piece.literals, Piece.leaves, SelectItem.leaves, leavesAll_eq, List.filterMap_append,
      List.append_assoc]

/-- The same of a continuation, whose places name properties. -/
theorem map_snd_continuationLiterals (values : List (String × Expr)) :
    (continuationLiterals values).map Prod.snd = Piece.literals values := by
  rw [continuationLiterals, List.map_flatMap, Piece.literals_list]
  exact List.flatMap_congr fun value _ => map_snd_literalsAt _ value

/-- **Each literal of a request is listed once**, in the order of visits. -/
theorem Request.map_snd_literals (r : Request) :
    r.literals.map Prod.snd = Piece.literals r := by
  have hitems : (r.items.flatMap (SelectItem.literals [])).map Prod.snd =
      Piece.literals r.items := by
    rw [List.map_flatMap, Piece.literals_list]
    exact List.flatMap_congr fun item _ => SelectItem.map_snd_literals [] item
  have hcontinuation : (r.continuation.elim [] continuationLiterals).map Prod.snd =
      Piece.literals r.continuation := by
    cases r.continuation with
    | none => rfl
    | some values => exact map_snd_continuationLiterals values
  simp only [Request.literals, SelectItem.literalsAll_eq, List.map_append, map_snd_literalsAt,
    hitems, hcontinuation]
  simp only [Piece.literals, Piece.leaves, List.filterMap_append, List.append_assoc]

/-! ## Slots in order -/

/-- The slots of literals in order, each named by its place. -/
def slotsOf (literals : List (SlotOrigin × Scalar)) : List Slot :=
  literals.zipIdx.map fun (literal, i) => ⟨Arguments.slotName i, literal.2.type, literal.1⟩

/-- **One parameter for each literal**, typed by it and placed where it stood, and in the order of
visits. -/
theorem Request.slots_of_normalizeWith {hash : ByteHash} {r : Request} {n : Normalized}
    (h : r.normalizeWith hash = .ok n) :
    n.arguments.slots = slotsOf r.literals ∧ n.arguments.values = r.literals.map Prod.snd := by
  obtain ⟨s, hs, hargs, -⟩ := lifted_of_normalizeWith h
  rw [hargs, hs.arguments]
  exact ⟨Arguments.slots_pushAll_empty r.literals, Arguments.values_pushAll_empty r.literals⟩

/-- **Taking a request apart is an ordered lifting that loses nothing**: no literal is left, the
values go back by name to where they were, the slots are numbered and are those of the literals in
the order of visits, each literal once and with the origin of its clause, and what is left may be
kept exactly when the request is modelled throughout. -/
theorem normalizeWith_lossless (hash : ByteHash) (r : Request) (n : Normalized)
    (h : r.normalizeWith hash = .ok n) :
    isLifted n.shape.request = true ∧ fill n.arguments.get? n.shape.request = r ∧
      n.arguments.slots = slotsOf r.literals ∧ n.arguments.values = r.literals.map Prod.snd ∧
      r.literals.map Prod.snd = Piece.literals r ∧
      (n.shape.isCacheable = true ↔ isModelled r = true) := by
  obtain ⟨hslots, hvalues⟩ := Request.slots_of_normalizeWith h
  refine ⟨Request.isLifted_of_normalizeWith h, Request.fill_of_normalizeWith h, hslots, hvalues,
    Request.map_snd_literals r, ?_⟩
  rw [Request.isCacheable_of_normalizeWith h]

/-- A page of customers of a region with their open orders and the lines of these. -/
def Request.customers : Request :=
  let lines : SelectItem := .expand ⟨["Lines"]⟩
    { ExpandClauses.plain with paging := ⟨none, some (.literal (.int 3)), none⟩ } []
  let orders : SelectItem := .expand ⟨["Account", "Orders"]⟩
    { ExpandClauses.plain with
      filter := some (.property ⟨["Open"]⟩)
      orderBy := [⟨.call "round" [.property ⟨["Total"]⟩, .literal (.int 2)], .descending⟩]
      paging := ⟨some (.literal (.int 5)), none, none⟩ } [lines]
  { Request.empty with
    path := [.entitySet "Regions", .key [("Name", .literal (.string "North"))],
      .navigation "Customers"]
    items := [.property ⟨["Name"]⟩, orders]
    paging := ⟨none, none, some (.literal (.int 20))⟩
    continuation := some [("Name", .literal (.string "Ann"))] }

/-- Customers with expansions at two depths: six literals, each with its place. -/
theorem normalizeWith_lossless_customers :
    ∃ n, Request.customers.normalizeWith (fun _ => 0) = .ok n ∧
      isLifted n.shape.request = true ∧ fill n.arguments.get? n.shape.request = .customers ∧
      n.arguments.slots = [⟨"__p0", .string, .key⟩, ⟨"__p1", .int, .orderBy ["Account", "Orders"]⟩,
        ⟨"__p2", .int, .top ["Account", "Orders", "Lines"]⟩,
        ⟨"__p3", .int, .skip ["Account", "Orders"]⟩, ⟨"__p4", .string, .continuation "Name"⟩,
        ⟨"__p5", .int, .pageSize []⟩] ∧
      n.arguments.values = [.string "North", .int 2, .int 3, .int 5, .string "Ann", .int 20] ∧
      n.shape.isCacheable = true := by
  refine ⟨_, rfl, ?_⟩
  obtain ⟨hlifted, hfill, hslots, hvalues, -, hcacheable⟩ :=
    normalizeWith_lossless (fun _ => 0) .customers _ rfl
  exact ⟨hlifted, hfill, hslots, hvalues, hcacheable.2 rfl⟩

end QueryPlans
