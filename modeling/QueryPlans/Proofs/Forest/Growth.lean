import QueryPlans.Proofs.Blocks
import QueryPlans.Proofs.Forest.Events
import QueryPlans.Proofs.Layout.Reading

/-!
# Proofs/Forest/Growth — the tree that grows row by row

A row that comes to an open entity changes one navigation of it, the first that has a value on the
row.  There the last entity takes the row if the row shows it, and else another entity begins
(`Level.extend`).  While this goes on the events so far and the open elements are one cut through
the tree: the events are those of the tree without the ends of what is open (`Level.IsOpen`).  Every
row that is placed keeps it so, whatever rows came before (`Level.IsOpen.place`).
-/

namespace QueryPlans

/-! ## Trees that grow -/

/-- An entity without any below it. -/
def Level.bare (level : Level) (cells : Cells) : Entity :=
  .mk cells (level.children.map fun _ => [])

mutual

/-- **An entity once a row has come to it.** -/
def Level.extend (cells : Cells) : Level → Entity → Entity
  | .mk _ children, .mk value branches => .mk value (extendAmong cells children branches)

/-- The navigations of an entity once a row has come to it. -/
def extendAmong (cells : Cells) : List Level → List (List Entity) → List (List Entity)
  | child :: rest, es :: more =>
    if child.info.isSubtreePresentIn cells then
      growLast (fun e => child.info.isSame e.value cells) (child.extend cells)
        (child.extend cells (child.bare cells)) es :: more
    else es :: extendAmong cells rest more
  | _, branches => branches

end

/-- The entity that begins with a row. -/
def Level.start (level : Level) (cells : Cells) : Entity := level.extend cells (level.bare cells)

/-- Siblings once a row has come to them. -/
def Level.grow (level : Level) (cells : Cells) : List Entity → List Entity :=
  growLast (fun e => level.info.isSame e.value cells) (level.extend cells) (level.start cells)

section

variable {level child : Level} {pre rest children : List Level} {cells : Cells} {e : Entity}
  {es : List Entity} {before more : List (List Entity)}

@[simp] theorem Level.value_extend (level : Level) (cells : Cells) (e : Entity) :
    (level.extend cells e).value = e.value := by
  obtain ⟨info, children⟩ := level
  obtain ⟨value, branches⟩ := e
  rfl

@[simp] theorem Level.value_start (level : Level) (cells : Cells) :
    (level.start cells).value = cells := level.value_extend cells _

theorem extendAmong_append (hlength : pre.length = before.length)
    (hpre : ∀ other ∈ pre, other.info.isSubtreePresentIn cells = false) :
    extendAmong cells (pre ++ rest) (before ++ more) = before ++ extendAmong cells rest more := by
  induction pre generalizing before with
  | nil =>
    obtain rfl := List.length_eq_zero_iff.1 hlength.symm
    rfl
  | cons other pre ih =>
    cases before with
    | nil => cases hlength
    | cons es before =>
      rw [List.forall_mem_cons] at hpre
      rw [List.cons_append, List.cons_append, extendAmong, hpre.1,
        ih (Nat.succ.inj hlength) hpre.2]
      rfl

/-- Only the navigation that the row comes to changes. -/
theorem extendAmong_reached (hlength : pre.length = before.length)
    (hpre : ∀ other ∈ pre, other.info.isSubtreePresentIn cells = false)
    (hchild : child.info.isSubtreePresentIn cells = true) :
    extendAmong cells (pre ++ child :: rest) (before ++ es :: more) =
      before ++ child.grow cells es :: more := by
  rw [extendAmong_append hlength hpre, extendAmong, if_pos hchild]
  rfl

theorem extendAmong_blank {branches : List (List Entity)}
    (h : ∀ child ∈ children, child.info.isSubtreePresentIn cells = false) :
    extendAmong cells children branches = branches := by
  induction children generalizing branches with
  | nil => cases branches <;> rfl
  | cons child rest ih =>
    cases branches with
    | nil => rfl
    | cons es more =>
      rw [List.forall_mem_cons] at h
      rw [extendAmong, h.1, ih h.2]
      rfl

end

/-! ## Branches side by side -/

section

variable {rule : SiblingRule} {pre rest : List Level} {before more : List (List Entity)}

theorem BranchesConform.length_eq (h : BranchesConform rule pre before) :
    pre.length = before.length := by
  induction pre generalizing before with
  | nil =>
    cases before with
    | nil => rfl
    | cons es more => exact absurd h id
  | cons child pre ih =>
    cases before with
    | nil => exact absurd h id
    | cons es more => exact congrArg Nat.succ (ih h.2.2.2)

theorem BranchesConform.append (h : BranchesConform rule pre before)
    (h' : BranchesConform rule rest more) :
    BranchesConform rule (pre ++ rest) (before ++ more) := by
  induction pre generalizing before with
  | nil =>
    cases before with
    | nil => exact h'
    | cons es more => exact absurd h id
  | cons child pre ih =>
    cases before with
    | nil => exact absurd h id
    | cons es more => exact ⟨h.1, h.2.1, h.2.2.1, ih h.2.2.2⟩

theorem branchEvents_nil (branches : List (List Entity)) : branchEvents [] branches = [] := by
  cases branches <;> simp [branchEvents.eq_def]

theorem branchEvents_append (hlength : pre.length = before.length) :
    branchEvents (pre ++ rest) (before ++ more) =
      branchEvents pre before ++ branchEvents rest more := by
  induction pre generalizing before with
  | nil =>
    obtain rfl := List.length_eq_zero_iff.1 hlength.symm
    rw [branchEvents_nil]
    rfl
  | cons child pre ih =>
    cases before with
    | nil => cases hlength
    | cons es before =>
      rw [List.cons_append, List.cons_append, branchEvents, ih (Nat.succ.inj hlength), branchEvents]
      simp

/-- Navigations without entities conform. -/
theorem branchesConform_empty (levels : List Level) :
    BranchesConform AdjacentDiffer levels (levels.map fun _ => []) := by
  induction levels with
  | nil => trivial
  | cons child rest ih => exact ⟨fun _ => Nat.zero_le 1, .nil, by simp, ih⟩

/-- The events of navigations without entities are empty resources. -/
theorem branchEvents_empty (levels : List Level) :
    branchEvents levels (levels.map fun _ => []) = emptyResources levels := by
  induction levels with
  | nil => exact branchEvents_nil []
  | cons child rest ih =>
    rw [List.map_cons, branchEvents, ih]
    rfl

end

/-! ## Cuts through a tree -/

mutual

/-- **An entity whose element is open**: its open elements and the events so far.  Either no
navigation was opened yet, or the navigations before the open one are over and those behind it have
no entities. -/
inductive Level.IsOpen : Level → Entity → List Frame → List Event → Prop
  | bare {info : LevelInfo} {children : List Level} {row : Row}
    (hpresent : info.isPresentIn row.toCells = true) :
    Level.IsOpen (.mk info children) (.mk row.toCells (children.map fun _ => []))
      [.ofRow (.mk info children) row] [.startElement info.index (info.values row.toCells)]
  | inside {info : LevelInfo} {pre rest : List Level} {child : Level} {row : Row}
    {before : List (List Entity)} {es : List Entity} {deeper : List Frame} {events : List Event}
    (hpresent : info.isPresentIn row.toCells = true)
    (hbefore : BranchesConform AdjacentDiffer pre before)
    (hsingle : child.info.role.isSingle = true → es.length ≤ 1)
    (hopen : Level.AreOpen child es deeper events) :
    Level.IsOpen (.mk info (pre ++ child :: rest))
      (.mk row.toCells (before ++ es :: rest.map fun _ => []))
      (⟨.mk info (pre ++ child :: rest), row, pre.length, true⟩ :: deeper)
      (.startElement info.index (info.values row.toCells) ::
        (branchEvents pre before ++ .startResource child.index :: events))

/-- Siblings of which the last one is open. -/
inductive Level.AreOpen : Level → List Entity → List Frame → List Event → Prop
  | mk {level : Level} {es : List Entity} {e : Entity} {frames : List Frame} {events : List Event}
    (hclosed : ∀ e ∈ es, level.Conforms AdjacentDiffer e)
    (hadjacent : AdjacentDiffer level.info (es ++ [e]))
    (hopen : Level.IsOpen level e frames events) :
    Level.AreOpen level (es ++ [e]) frames (es.flatMap level.events ++ events)

end

/-- What closing does to all that is open in an entity. -/
def Level.Closes (level : Level) : Prop :=
  ∀ ⦃e frames events⦄, level.IsOpen e frames events →
    events ++ closeAll frames = level.events e ∧ level.Conforms AdjacentDiffer e

/-- What placing a row does to an open entity. -/
def Level.Grows (level : Level) : Prop :=
  ∀ ⦃row e f deeper frames events below⦄, level.IsOpen e (f :: deeper) events →
    level.place row f deeper = .ok (below, frames) →
      level.IsOpen (level.extend row.toCells e) frames (events ++ below)

namespace Level

variable {level : Level} {row : Row} {e : Entity} {es : List Entity} {f : Frame}
  {deeper frames opened : List Frame} {events below : List Event}
  {properties : List (String × Scalar)}

/-- The outermost open element is that of the entity itself. -/
theorem IsOpen.frames_eq (h : level.IsOpen e frames events) :
    ∃ f deeper, frames = f :: deeper ∧ f.row.toCells = e.value := by
  cases h with
  | bare _ => exact ⟨_, _, rfl, rfl⟩
  | inside _ _ _ _ => exact ⟨_, _, rfl, rfl⟩

end Level

namespace Reaches

variable {pre : List Level} {child : Level} {row : Row}

theorem blank_before (h : Reaches pre child row) :
    ∀ other ∈ pre, other.info.isSubtreePresentIn row.toCells = false :=
  fun other hother => LevelInfo.isSubtreePresent_of_ok (h.before other hother)

theorem shown (h : Reaches pre child row) : child.info.isSubtreePresentIn row.toCells = true :=
  LevelInfo.isSubtreePresent_of_ok h.subtree

end Reaches

namespace Level

variable {level : Level} {row : Row} {e : Entity} {es : List Entity} {f : Frame}
  {deeper frames opened : List Frame} {events below : List Event}
  {properties : List (String × Scalar)}

/-- An entity opens with its row. -/
theorem Grows.isOpen_start (hgrows : level.Grows) (hpresent : level.info.isPresent row = .ok true)
    (hread : level.info.read row = .ok properties)
    (hplace : level.place row (.ofRow level row) [] = .ok (below, opened)) :
    level.IsOpen (level.start row.toCells) opened
      (.startElement level.index properties :: below) := by
  have hbare : level.IsOpen (level.bare row.toCells) [.ofRow level row]
      [.startElement level.index properties] := by
    obtain ⟨info, children⟩ := level
    rw [← LevelInfo.values_of_ok hread]
    exact .bare (LevelInfo.isPresent_of_ok hpresent)
  exact hgrows hbare hplace

/-! ## Siblings -/

namespace AreOpen

/-- The first of siblings. -/
theorem singleton (h : level.IsOpen e frames events) : level.AreOpen [e] frames events :=
  .mk (fun _ he => absurd he List.not_mem_nil) (.singleton e) h

theorem frames_ne_nil (h : level.AreOpen es frames events) : ∃ f deeper, frames = f :: deeper := by
  cases h with
  | mk _ _ hopen =>
    obtain ⟨f, deeper, hframes, -⟩ := hopen.frames_eq
    exact ⟨f, deeper, hframes⟩

theorem close (hcloses : level.Closes) (h : level.AreOpen es frames events) :
    events ++ closeAll frames = es.flatMap level.events ∧
      AdjacentDiffer level.info es ∧ ∀ e ∈ es, level.Conforms AdjacentDiffer e := by
  cases h with
  | mk hclosed hadjacent hopen =>
    obtain ⟨hevents, hconforms⟩ := hcloses hopen
    refine ⟨?_, hadjacent, ?_⟩
    · rw [List.append_assoc, hevents, List.flatMap_append, List.flatMap_singleton]
    · rw [List.forall_mem_append, List.forall_mem_singleton]
      exact ⟨hclosed, hconforms⟩

/-- A row of the open entity is placed below it. -/
theorem same (hgrows : level.Grows) (h : level.AreOpen es (f :: deeper) events)
    (hsame : level.info.sameEntity f.row row = .ok true)
    (hplace : level.place row f deeper = .ok (below, frames)) :
    level.AreOpen (level.grow row.toCells es) frames (events ++ below) ∧
      (level.grow row.toCells es).length = es.length := by
  cases h with
  | @mk _ es e _ events hclosed hadjacent hopen =>
    obtain ⟨f', deeper', hframes, hvalue⟩ := hopen.frames_eq
    obtain ⟨rfl, rfl⟩ := List.cons.inj hframes
    have hsame' : level.info.isSame e.value row.toCells = true :=
      hvalue ▸ LevelInfo.sameEntity_of_ok hsame
    rw [grow, growLast_concat, if_pos hsame', List.append_assoc]
    refine ⟨.mk hclosed ?_ (hgrows hopen hplace), by simp⟩
    rw [AdjacentDiffer, List.isChain_append] at hadjacent ⊢
    simpa using hadjacent

/-- A row of another entity closes the open one and opens its own. -/
theorem other (hgrows : level.Grows) (hcloses : level.Closes)
    (h : level.AreOpen es (f :: deeper) events)
    (hother : level.info.sameEntity f.row row = .ok false)
    (hpresent : level.info.isPresent row = .ok true)
    (hread : level.info.read row = .ok properties)
    (hplace : level.place row (.ofRow level row) [] = .ok (below, opened)) :
    level.AreOpen (level.grow row.toCells es) opened
      (events ++ closeAll (f :: deeper) ++ .startElement level.index properties :: below) := by
  obtain ⟨hevents, hadjacent, hconforms⟩ := h.close hcloses
  cases h with
  | @mk _ es e _ events hclosed _ hopen =>
    obtain ⟨f', deeper', hframes, hvalue⟩ := hopen.frames_eq
    obtain ⟨rfl, rfl⟩ := List.cons.inj hframes
    have hother' : level.info.isSame e.value row.toCells = false :=
      hvalue ▸ LevelInfo.sameEntity_of_ok hother
    rw [hevents, grow, growLast_concat, hother']
    refine .mk hconforms ?_ (hgrows.isOpen_start hpresent hread hplace)
    rw [AdjacentDiffer, List.isChain_append]
    exact ⟨hadjacent, .singleton _, by simpa using hother'⟩

/-- **What a row does where a navigation is open**: its element stays as it is. -/
theorem placed (hgrows : level.Grows) (hcloses : level.Closes)
    (hsingle : level.info.role.isSingle = true → es.length ≤ 1)
    (h : level.AreOpen es deeper events) (hpresent : level.info.isPresent row = .ok true)
    {position : Nat} (hplaced : PlacedAt row level position f deeper below frames)
    (hopen : f.isOpen = true) (hvisited : f.visited = position) :
    ∃ opened, frames = f :: opened ∧ level.AreOpen (level.grow row.toCells es) opened
        (events ++ below) ∧
      (level.info.role.isSingle = true → (level.grow row.toCells es).length ≤ 1) := by
  cases hplaced with
  | same _ _ hsame hplace =>
    obtain ⟨hopened, hlength⟩ := h.same hgrows hsame hplace
    exact ⟨_, rfl, hopened, fun hrole => hlength ▸ hsingle hrole⟩
  | other hother hread hplace =>
    obtain ⟨inner, deeper, rfl⟩ := h.frames_ne_nil
    obtain ⟨hdiffer, hcollection⟩ := hother hopen hvisited inner rfl
    have hopened := h.other hgrows hcloses hdiffer hpresent hread hplace
    refine ⟨_, by rw [Frame.enter_eq_self hopen hvisited], ?_, by simp [hcollection]⟩
    simpa [hopen, hvisited] using hopened

end AreOpen

/-! ## Below an element -/

@[simp] theorem isOpen_ofRow (level : Level) (row : Row) :
    (Frame.ofRow level row).isOpen = false := rfl

theorem skipTo_ofRow (info : LevelInfo) (pre rest : List Level) (row : Row) :
    (Frame.ofRow (.mk info (pre ++ rest)) row).skipTo pre.length = emptyResources pre := by
  rw [Frame.skipTo]
  change [] ++ emptyResources (((pre ++ rest).take pre.length).drop 0) = _
  rw [List.take_left, List.drop_zero, List.nil_append]

/-- What is skipped behind an open navigation: its end, and resources without elements. -/
theorem skipTo_inside (info : LevelInfo) (pre : List Level) (child : Level) (mid rest : List Level)
    (row : Row) :
    (Frame.mk (.mk info (pre ++ child :: (mid ++ rest))) row pre.length true).skipTo
        (pre ++ child :: mid).length =
      .endResource child.index :: emptyResources mid := by
  have htake : (pre ++ child :: (mid ++ rest)).take (pre ++ child :: mid).length =
      pre ++ child :: mid := by
    rw [← List.cons_append, ← List.append_assoc, List.take_left']
    rfl
  have hdrop : (pre ++ child :: mid).drop (pre.length + 1) = mid := by
    rw [← List.singleton_append, ← List.append_assoc, List.drop_left']
    simp
  simp only [Frame.skipTo, Frame.endOpen, Frame.settled, Level.children, if_true, htake, hdrop]
  simp

theorem closes (level : Level) : level.Closes := by
  induction level with
  | mk info children ih =>
    intro e frames events h
    cases h with
    | @bare _ _ row hpresent =>
      refine ⟨?_, hpresent, branchesConform_empty children⟩
      rw [closeAll, closeAll, Frame.close, Level.events, branchEvents_empty]
      have hskip := skipTo_ofRow info children [] row
      rw [List.append_nil] at hskip
      change _ ++ ([] ++ (Frame.skipTo (.ofRow (.mk info children) row) children.length ++ _)) = _
      rw [hskip]
      rfl
    | @inside _ pre rest child row before es deeper events hpresent hbefore hsingle hopen =>
      obtain ⟨hevents, hadjacent, hconforms⟩ := hopen.close (ih child (by simp))
      refine ⟨?_, hpresent, hbefore.append
        ⟨hsingle, hadjacent, hconforms, branchesConform_empty rest⟩⟩
      have hskip := skipTo_inside info pre child rest [] row
      rw [List.append_nil] at hskip
      rw [closeAll, Frame.close, Level.children, hskip, Level.events,
        branchEvents_append hbefore.length_eq, branchEvents, ← hevents, branchEvents_empty]
      simp [Level.index, Level.info]

/-- The first navigation of an element that a row opens. -/
theorem IsOpen.enter_bare {info : LevelInfo} {pre : List Level} (rest : List Level)
    {child : Level} {row₀ : Row} (hpresent : info.isPresentIn row₀.toCells = true)
    (hstart : child.IsOpen (child.start row.toCells) opened below)
    (hreaches : Reaches pre child row) :
    (Level.mk info (pre ++ child :: rest)).IsOpen
      ((Level.mk info (pre ++ child :: rest)).extend row.toCells
        (.mk row₀.toCells ((pre ++ child :: rest).map fun _ => [])))
      ((Frame.ofRow (.mk info (pre ++ child :: rest)) row₀).enter pre.length :: opened)
      (.startElement info.index (info.values row₀.toCells) ::
        (emptyResources pre ++ .startResource child.index :: below)) := by
  rw [extend, List.map_append, List.map_cons, extendAmong_reached (by simp) hreaches.blank_before
    hreaches.shown, ← branchEvents_empty]
  exact .inside hpresent (branchesConform_empty pre) (fun _ => Nat.le_refl 1) (.singleton hstart)

/-- Of two ways to split a list, the one that splits earlier. -/
theorem split_cases {pre₀ rest₀ pre rest : List Level} {child₀ child : Level}
    (h : pre₀ ++ child₀ :: rest₀ = pre ++ child :: rest) (hle : pre₀.length ≤ pre.length) :
    (pre₀ = pre ∧ child₀ = child ∧ rest₀ = rest) ∨
      ∃ mid, pre = pre₀ ++ child₀ :: mid ∧ rest₀ = mid ++ child :: rest := by
  rcases List.append_eq_append_iff.1 h with ⟨mid, rfl, hmid⟩ | ⟨mid, rfl, hmid⟩
  · cases mid with
    | nil => exact .inl (by simpa using hmid)
    | cons first mid =>
      rw [List.cons_append, List.cons.injEq] at hmid
      exact .inr ⟨mid, by rw [hmid.1], hmid.2⟩
  · rw [List.length_append] at hle
    obtain rfl : mid = [] := List.eq_nil_of_length_eq_zero (by omega)
    exact .inl (by simpa [eq_comm] using hmid)

/-- A navigation that a row opens behind those that are over. -/
theorem IsOpen.enter_later {info : LevelInfo} {pre : List Level} (rest : List Level)
    {child : Level} {row₀ : Row} {before : List (List Entity)}
    (hpresent : info.isPresentIn row₀.toCells = true)
    (hbefore : BranchesConform AdjacentDiffer pre before)
    (hstart : child.IsOpen (child.start row.toCells) opened below)
    (hreaches : Reaches pre child row) :
    (Level.mk info (pre ++ child :: rest)).IsOpen
      ((Level.mk info (pre ++ child :: rest)).extend row.toCells
        (.mk row₀.toCells (before ++ (child :: rest).map fun _ => [])))
      (⟨.mk info (pre ++ child :: rest), row₀, pre.length, true⟩ :: opened)
      (.startElement info.index (info.values row₀.toCells) ::
        (branchEvents pre before ++ .startResource child.index :: below)) := by
  rw [extend, List.map_cons, extendAmong_reached hbefore.length_eq hreaches.blank_before
    hreaches.shown]
  exact .inside hpresent hbefore (fun _ => Nat.le_refl 1) (.singleton hstart)

theorem grows (level : Level) : level.Grows := by
  induction level with
  | mk info children ih =>
    intro row e f deeper frames events below hopen hplace
    rcases place_cases hplace with
      ⟨hblank, rfl, rfl⟩ | ⟨pre, child, rest, hchildren, hreaches, hvisited, hplaced⟩
    · have hblank' : ∀ child ∈ children, child.info.isSubtreePresentIn row.toCells = false :=
        fun child hchild => LevelInfo.isSubtreePresent_of_ok (hblank child hchild)
      obtain ⟨value, branches⟩ := e
      rw [List.append_nil, extend, extendAmong_blank hblank']
      exact hopen
    · have hgrows : child.Grows := ih child (by simp [hchildren])
      cases hopen with
      | bare hpresent =>
        subst hchildren
        cases hplaced with
        | other _ hread hbelow =>
          have hstart := hgrows.isOpen_start hreaches.present hread hbelow
          rw [skipTo_ofRow]
          simpa [closeAll] using IsOpen.enter_bare rest hpresent hstart hreaches
      | @inside _ pre₀ rest₀ child₀ row₀ before es _ events hpresent hbefore hsingle hopen =>
        -- That child is the one that is open, or it stands behind it, which then closes.
        rcases split_cases hchildren hvisited with ⟨rfl, rfl, rfl⟩ | ⟨mid, rfl, rfl⟩
        · obtain ⟨opened, rfl, hopened, hfew⟩ :=
            hopen.placed hgrows (closes child₀) hsingle hreaches.present hplaced rfl rfl
          rw [extend, extendAmong_reached hbefore.length_eq hreaches.blank_before hreaches.shown,
            List.cons_append, List.append_assoc, List.cons_append]
          exact .inside hpresent hbefore hfew hopened
        · obtain ⟨hevents, hadjacent, hconforms⟩ := hopen.close (closes child₀)
          have hlater : (pre₀ ++ child₀ :: mid).length ≠ pre₀.length := by simp
          cases hplaced with
          | same _ hvisited' _ _ => exact absurd hvisited'.symm hlater
          | other _ hread hbelow =>
            have hstart := hgrows.isOpen_start hreaches.present hread hbelow
            have hbranches : BranchesConform AdjacentDiffer (pre₀ ++ child₀ :: mid)
                (before ++ es :: mid.map fun _ => []) :=
              hbefore.append ⟨hsingle, hadjacent, hconforms, branchesConform_empty mid⟩
            have henter := IsOpen.enter_later rest hpresent hbranches hstart hreaches
            rw [branchEvents_append hbefore.length_eq, branchEvents, branchEvents_empty,
              ← hevents] at henter
            rw [skipTo_inside]
            simpa [hlater, Frame.enter] using henter

end Level

/-! ## The whole forest -/

/-- Siblings once several rows have come to them. -/
def Level.growAll (level : Level) (es : List Entity) (rows : List Cells) : List Entity :=
  rows.foldl (fun es cells => level.grow cells es) es

/-- **The forest that rows grow.** -/
def Layout.grown (layout : Layout) (rows : List Row) : List Entity :=
  layout.root.growAll [] (rows.map Row.toCells)

/-- A forest with its open elements and the events so far. -/
inductive Layout.IsOpen (layout : Layout) : List Entity → List Frame → List Event → Prop
  | empty : IsOpen layout [] [] []
  | roots {forest : List Entity} {frames : List Frame} {events : List Event}
    (hopen : layout.root.AreOpen forest frames events) : IsOpen layout forest frames events

namespace Layout

variable {layout : Layout} {forest : List Entity} {frames frames' : List Frame} {row : Row}
  {rows : List Row} {events below : List Event}

theorem IsOpen.placeRow (h : layout.IsOpen forest frames events)
    (hplace : layout.placeRow row frames = .ok (below, frames')) :
    layout.IsOpen (layout.root.grow row.toCells forest) frames' (events ++ below) := by
  obtain ⟨hpresent, hplaced⟩ := placeRow_cases hplace
  have hgrows := layout.root.grows
  cases h with
  | empty =>
    cases hplaced with
    | other _ hread hbelow =>
      exact .roots (.singleton (hgrows.isOpen_start hpresent hread hbelow))
  | roots hopen =>
    cases hplaced with
    | same hsame hbelow => exact .roots (hopen.same hgrows hsame hbelow).1
    | other hother hread hbelow =>
      obtain ⟨f, deeper, rfl⟩ := hopen.frames_ne_nil
      rw [← List.append_assoc]
      exact .roots (hopen.other hgrows layout.root.closes (hother f rfl) hpresent hread hbelow)

theorem IsOpen.places (h : layout.IsOpen forest frames events)
    (hplaces : Places layout.placeRow frames rows below frames') :
    layout.IsOpen (layout.root.growAll forest (rows.map Row.toCells)) frames'
      (events ++ below) := by
  induction hplaces generalizing forest events with
  | nil => rwa [List.append_nil]
  | cons head tail ih =>
    rw [← List.append_assoc]
    exact ih (h.placeRow head)

theorem IsOpen.close (h : layout.IsOpen forest frames events) :
    events ++ closeAll frames = forest.flatMap layout.root.events ∧
      layout.Conforms AdjacentDiffer forest := by
  cases h with
  | empty => exact ⟨rfl, .nil, fun _ he => absurd he List.not_mem_nil⟩
  | roots hopen =>
    obtain ⟨hevents, hadjacent, hconforms⟩ := hopen.close layout.root.closes
    exact ⟨hevents, hadjacent, hconforms⟩

/-- **Whatever rows are placed**, their events, once what they leave open is closed, are those of
the forest that they grow. -/
theorem events_of_places (h : Places layout.placeRow [] rows events frames) :
    events ++ closeAll frames = (layout.grown rows).flatMap layout.root.events ∧
      layout.Conforms AdjacentDiffer (layout.grown rows) :=
  (IsOpen.empty.places h).close

end Layout

end QueryPlans
