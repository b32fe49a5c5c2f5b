import QueryPlans.Proofs.Continuation
import QueryPlans.Proofs.Except
import QueryPlans.Proofs.Shape.Paging
import QueryPlans.Request.Builder

/-!
# Proofs/Shape/Resuming — what a request that resumes finds of its continuation

A program that resumes behind a continuation builds a request with the values of the last such step
(`Request.continuation_of_build`), and taking the request apart files each value under its property.
A continuation may have several values of one property: looking into the continuation gives the
first of them, the arguments of the request give the last (`Request.resumes`).  So the two look-ups
agree for a continuation whose first and last values are the same for every property, and for no
other.
-/

namespace QueryPlans

open Piece

/-! ## The continuation of a built request -/

/-- The continuation behind which a step resumes. -/
def RequestStep.resumed? : RequestStep → Option Continuation
  | resume c => some c
  | _ => none

/-- A step that resumes replaces the continuation, all others leave it. -/
theorem RequestStep.continuation_of_run {step : RequestStep} {r r' : Request}
    (h : step.run r = .ok r') :
    r'.continuation = (step.resumed?.map Continuation.clause).or r.continuation := by
  cases step with
  | segment | filter | apply | select | item | orderBy | count =>
    cases h
    rfl
  | entitySet =>
    rw [run] at h
    split at h
    · cases h
      rfl
    · cases h
  | navigate =>
    rw [run] at h
    split at h
    · cases h
    · cases h
      rfl
  | key =>
    rw [run] at h
    split at h
    · cases h
    · split at h
      · cases h
      · cases h
        rfl
  | expand | skip | top | pageSize =>
    rw [run] at h
    obtain ⟨_, -, h⟩ := bind_eq_ok_iff.1 h
    cases h
    rfl
  | resume =>
    rw [run] at h
    split at h
    · cases h
    · cases h
      rfl

/-- **The continuation of a built request** is the one it was last resumed with. -/
theorem RequestStep.continuation_of_runAll {steps : List RequestStep} {r r' : Request}
    (h : runAll steps r = .ok r') :
    r'.continuation =
      ((steps.filterMap resumed?).getLast?.map Continuation.clause).or r.continuation := by
  induction steps generalizing r with
  | nil =>
    cases h
    rfl
  | cons step rest ih =>
    obtain ⟨r₁, hstep, hrest⟩ := bind_eq_ok_iff.1 h
    rw [ih hrest, continuation_of_run hstep]
    cases hresumed : step.resumed? with
    | none => rw [List.filterMap_cons_none hresumed]; rfl
    | some c =>
      rw [List.filterMap_cons_some hresumed, List.getLast?_cons]
      cases (rest.filterMap resumed?).getLast? <;> rfl

/-- **A built request resumes behind the continuation that its program named last.** -/
theorem Request.continuation_of_build {steps : List RequestStep} {r : Request} {c : Continuation}
    (hbuild : build steps = .ok r)
    (hlast : (steps.filterMap RequestStep.resumed?).getLast? = some c) :
    r.continuation = some c.clause := by
  obtain ⟨r', hrun, hpath⟩ := bind_eq_ok_iff.1 hbuild
  split at hpath
  · cases hpath
  · cases hpath
    rw [RequestStep.continuation_of_runAll hrun, hlast]
    rfl

/-! ## What is filed under a property -/

/-- The property that literals of this origin are filed under. -/
def SlotOrigin.property? : SlotOrigin → Option String
  | continuation property => some property
  | key | filter _ | apply | orderBy _ | skip _ | top _ | pageSize _ => none

/-- Only a continuation has places that name a property. -/
theorem property?_of_mem_literalsAt {α : Type} [Piece α] {origin : SlotOrigin} {a : α}
    (h : origin.property? = none) :
    ∀ literal ∈ literalsAt origin a, literal.1.property? = none := by
  intro literal hliteral
  obtain ⟨v, -, rfl⟩ := List.mem_map.1 hliteral
  exact h

/-- No literal of an item belongs to the continuation. -/
theorem SelectItem.property?_of_mem_literals {navigation : List String} {item : SelectItem} :
    ∀ literal ∈ item.literals navigation, literal.1.property? = none := by
  induction item generalizing navigation with
  | wildcard => simp [literals]
  | property path => simp [literals]
  | expand path clauses items ih =>
    intro literal hliteral
    simp only [literals, literalsAll_eq, List.mem_append, List.mem_flatMap] at hliteral
    rcases hliteral with ((((h | h) | ⟨item, hitem, h⟩) | h) | h) | h
    · exact property?_of_mem_literalsAt rfl literal h
    · exact property?_of_mem_literalsAt rfl literal h
    · exact ih item hitem literal h
    · exact property?_of_mem_literalsAt rfl literal h
    · exact property?_of_mem_literalsAt rfl literal h
    · exact property?_of_mem_literalsAt rfl literal h

/-- What is not filed under a property does not matter. -/
theorem lastLiteral?_of_property?_eq_none {literals : List (SlotOrigin × Scalar)}
    (h : ∀ literal ∈ literals, literal.1.property? = none) (property : String) :
    lastLiteral? (.continuation property) literals = none := by
  refine lastLiteral?_eq_none fun literal hliteral horigin => ?_
  have hproperty := h literal hliteral
  rw [horigin] at hproperty
  cases hproperty

namespace Continuation

/-- The last value of a property. -/
def last? (c : Continuation) (property : String) : Option Scalar := get? ⟨c.values.reverse⟩ property

/-- The literals of the clause are the values, each filed under its property. -/
theorem continuationLiterals_clause (c : Continuation) :
    continuationLiterals c.clause =
      c.values.map fun value => (SlotOrigin.continuation value.1, value.2) := by
  rw [continuationLiterals, clause, List.flatMap_map, List.map_eq_flatMap]
  rfl

/-- Of the literals of the clause, the last one filed under a property is its last value. -/
theorem lastLiteral?_clause (c : Continuation) (property : String) :
    lastLiteral? (.continuation property) (continuationLiterals c.clause) = c.last? property := by
  rw [continuationLiterals_clause, lastLiteral?, last?, get?, ← List.map_reverse]
  induction c.values.reverse with
  | nil => rfl
  | cons value rest ih =>
    rw [List.map_cons, List.findSome?_cons, List.find?_cons, ih]
    by_cases hname : value.1 = property
    · simp [hname]
    · have hbeq : (value.1 == property) = false := beq_eq_false_iff_ne.2 hname
      simp [hname, hbeq]

/-- A property that has a value has a first one. -/
theorem isSome_get?_iff {c : Continuation} {property : String} :
    (c.get? property).isSome = true ↔ property ∈ c.values.map Prod.fst := by
  rw [get?, Option.isSome_map, List.find?_isSome, List.mem_map]
  simp only [beq_iff_eq]

/-- A property without a value has neither a first nor a last one. -/
theorem get?_eq_last?_of_not_mem {c : Continuation} {property : String}
    (h : property ∉ c.values.map Prod.fst) : c.get? property = c.last? property := by
  have hfirst : c.get? property = none := by
    rwa [← Option.not_isSome_iff_eq_none, isSome_get?_iff]
  have hlast : c.last? property = none := by
    rw [last?, ← Option.not_isSome_iff_eq_none, isSome_get?_iff, List.map_reverse, List.mem_reverse]
    exact h
  rw [hfirst, hlast]

/-- Among values of different properties each is found. -/
theorem get?_eq_some_iff {values : List (String × Scalar)} (h : (values.map Prod.fst).Nodup)
    {property : String} {v : Scalar} :
    get? ⟨values⟩ property = some v ↔ (property, v) ∈ values := by
  rw [get?]
  induction values with
  | nil => simp
  | cons value rest ih =>
    obtain ⟨name, w⟩ := value
    rw [List.map_cons, List.nodup_cons] at h
    rw [List.find?_cons, List.mem_cons, ← ih h.2, Prod.mk.injEq]
    by_cases hname : name = property
    · subst hname
      have hrest : (name, v) ∉ rest := fun hmem => h.1 (List.mem_map.2 ⟨_, hmem, rfl⟩)
      simp [ih h.2, hrest, eq_comm]
    · have hbeq : (name == property) = false := beq_eq_false_iff_ne.2 hname
      simp [hbeq, Ne.symm hname]

/-- Where every property has one value, it is the first and the last. -/
theorem get?_eq_last?_of_nodup {c : Continuation} (h : (c.values.map Prod.fst).Nodup)
    (property : String) : c.get? property = c.last? property := by
  have hreverse : (c.values.reverse.map Prod.fst).Nodup := by
    rw [List.map_reverse]
    exact List.nodup_reverse.2 h
  refine Option.ext fun v => ?_
  rw [last?, get?_eq_some_iff h, get?_eq_some_iff hreverse, List.mem_reverse]

end Continuation

/-! ## Resuming -/

namespace Request

variable {r : Request} {n : Normalized} {c : Continuation}

/-- **Within a request**, the last literal filed under a property is the last value of the
continuation. -/
theorem lastLiteral?_continuation (hc : r.continuation = some c.clause) (property : String) :
    lastLiteral? (.continuation property) r.literals = c.last? property := by
  have hother {α : Type} [Piece α] (origin : SlotOrigin) (h : origin.property? = none) (a : α) :=
    lastLiteral?_of_property?_eq_none (property?_of_mem_literalsAt (a := a) h) property
  have hitems : lastLiteral? (.continuation property) (SelectItem.literalsAll [] r.items) =
      none := by
    refine lastLiteral?_of_property?_eq_none (fun literal hliteral => ?_) property
    rw [SelectItem.literalsAll_eq] at hliteral
    obtain ⟨item, -, hliteral⟩ := List.mem_flatMap.1 hliteral
    exact SelectItem.property?_of_mem_literals literal hliteral
  simp only [literals, lastLiteral?_append, hother .key rfl, hother (.filter []) rfl,
    hother .apply rfl, hitems, hother (.orderBy []) rfl, hother (.skip []) rfl,
    hother (.top []) rfl, hother (.pageSize []) rfl, hc, Option.elim_some, c.lastLiteral?_clause,
    Option.none_or, Option.or_none]

/-- **A look-up gives the last value of the continuation.** -/
theorem continuation?_eq (hn : r.normalize = .ok n) (hc : r.continuation = some c.clause)
    (property : String) : n.arguments.continuation? property = c.last? property := by
  rw [Arguments.continuation?,
    Arguments.byOrigin?_eq (map_entries_of_normalizeWith hn) rfl, lastLiteral?_continuation hc]

/-- **A request that resumes finds the last value of each property** of the continuation that its
program named last.  It finds what the continuation itself gives if and only if no property has a
first value other than its last; so it does for continuations that name each property once. -/
theorem resumes {steps : List RequestStep} (hbuild : build steps = .ok r)
    (hlast : (steps.filterMap RequestStep.resumed?).getLast? = some c) (hn : r.normalize = .ok n) :
    (∀ property, n.arguments.continuation? property = c.last? property) ∧
    ((∀ property, n.arguments.continuation? property = c.get? property) ↔
      ∀ value ∈ c.values, c.get? value.1 = c.last? value.1) ∧
    ((c.values.map Prod.fst).Nodup →
      ∀ property, n.arguments.continuation? property = c.get? property) := by
  have hfound := continuation?_eq hn (continuation_of_build hbuild hlast)
  refine ⟨hfound, ⟨fun h value _ => (h value.1).symm.trans (hfound value.1), fun h property => ?_⟩,
    fun hnodup property => ?_⟩
  · rw [hfound]
    by_cases hproperty : property ∈ c.values.map Prod.fst
    · obtain ⟨value, hvalue, rfl⟩ := List.mem_map.1 hproperty
      exact (h value hvalue).symm
    · exact (Continuation.get?_eq_last?_of_not_mem hproperty).symm
  · rw [hfound, Continuation.get?_eq_last?_of_nodup hnodup]

end Request

/-! ## Tracks, resumed by two titles -/

/-- Tracks and their albums have a title; a page continues by the title of the album and then by the
track's own. -/
def LevelSpec.tracks : LevelSpec :=
  let album : LevelSpec := empty.property "Title" 2
  (((empty.key "Id" 0).property "Title" 1).navigation "Album" .single album
    |>.continueBy ⟨"Title", ["Album", "Title"], 2⟩).continueBy ⟨"Title", ["Title"], 1⟩

/-- Tracks by `Id` with an album, continued at two titles of the same name. -/
def Layout.tracks : Layout where
  root := .mk ⟨0, .root, [⟨"Id", 0⟩, ⟨"Title", 1⟩], [0], [0, 1], [0, 1, 2], none, 0⟩
    [.mk ⟨1, .navigation "Album" .single, [⟨"Title", 2⟩], [], [2], [2], some 0, 1⟩ []]
  continuation := [⟨"Title", ["Album", "Title"], 2⟩, ⟨"Title", ["Title"], 1⟩]
  width := 3

namespace Continuation

/-- The continuation behind a track. -/
def afterTrack (album title : String) : Continuation :=
  ⟨[("Title", .string album), ("Title", .string title)]⟩

/-- A page of one track issues it. -/
theorem isHandedOut_afterTrack (album title : String) : IsHandedOut (afterTrack album title) := by
  let cursor : Cursor := .ofDeliveries [.row ⟨[.int 1, .string title, .string album]⟩]
  let m : Materializer := .ofCursor .tracks cursor 1
  have hlayout : LevelSpec.tracks.layout = .ok .tracks := rfl
  have hreaches : m.Reaches (m.withPageSize 1).next.2 := .next (.withPageSize .refl 1)
  exact .issued hlayout hreaches rfl

end Continuation

namespace Request

/-- The tracks behind some continuation. -/
def tracksBehind (c : Continuation) : List RequestStep := [.entitySet "Tracks", .resume c]

/-- Behind a track of an album: two values have one name, and the later one is found. -/
theorem resumes_afterTrack :
    ∃ r n, build (tracksBehind (.afterTrack "Abbey Road" "Something")) = .ok r ∧
      r.normalize = .ok n ∧ n.arguments.continuation? "Title" = some (.string "Something") ∧
      n.arguments.continuation? "Id" = none := by
  obtain ⟨r, hbuild⟩ : ∃ r, build (tracksBehind (.afterTrack "Abbey Road" "Something")) = .ok r :=
    ⟨_, rfl⟩
  obtain ⟨n, hn⟩ : ∃ n, r.normalize = .ok n := by
    cases hbuild
    exact ⟨_, rfl⟩
  obtain ⟨hfound, -, -⟩ := resumes hbuild rfl hn
  exact ⟨r, n, hbuild, hn, hfound "Title", hfound "Id"⟩

/-- **Two titles in one continuation**: the continuation gives the album's, the request that resumes
behind it finds the track's. -/
theorem afterTrack_misread :
    ¬∀ (c : Continuation) (r : Request) (n : Normalized), c.IsHandedOut →
      build (tracksBehind c) = .ok r → r.normalize = .ok n →
      ∀ property, n.arguments.continuation? property = c.get? property := by
  intro h
  obtain ⟨r, hbuild⟩ : ∃ r, build (tracksBehind (.afterTrack "Abbey Road" "Something")) = .ok r :=
    ⟨_, rfl⟩
  obtain ⟨n, hn⟩ : ∃ n, r.normalize = .ok n := by
    cases hbuild
    exact ⟨_, rfl⟩
  have hsame := h _ r n (Continuation.isHandedOut_afterTrack _ _) hbuild hn "Title"
  rw [continuation?_eq hn (continuation_of_build hbuild rfl)] at hsame
  exact absurd hsame (by decide)

end Request

end QueryPlans
