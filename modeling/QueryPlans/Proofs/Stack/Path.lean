import QueryPlans.Proofs.Ownership.Placement
import QueryPlans.Proofs.Schedule.Events

/-!
# Proofs/Stack/Path — the open elements between two reads

The open elements are a path through the levels (`Layout.Nested`), and each of them is sound: it is
not past its last navigation, and the row that opened it shows its level (`Frame.IsSound`).  A row
that is placed keeps the path, so whatever is done with a reader, what it leaves open is a path
(`EventReader.onPath_of_plays`).
-/

namespace QueryPlans

variable {layout : Layout} {level : Level} {row : Row} {rows : List Row} {f : Frame}
  {deeper frames frames' : List Frame} {events : List Event}

/-! ## Sound elements -/

/-- **A sound element** is not past its last navigation, and its row shows its level. -/
structure Frame.IsSound (f : Frame) : Prop where
  settled_le : f.settled ≤ f.level.children.length
  present : f.level.info.isPresent f.row = .ok true

namespace Frame

/-- What was visited is settled. -/
theorem visited_le_settled (f : Frame) : f.visited ≤ f.settled := by
  rw [settled]
  split
  · exact Nat.le_succ _
  · exact Nat.le_refl _

/-- A frame of a row that shows its level is sound. -/
theorem isSound_ofRow (hpresent : level.info.isPresent row = .ok true) :
    (ofRow level row).IsSound := ⟨Nat.zero_le _, hpresent⟩

/-- A sound frame may enter a child that it has. -/
theorem IsSound.enter (h : f.IsSound) {position : Nat}
    (hlt : position < f.level.children.length) : (f.enter position).IsSound := ⟨hlt, h.present⟩

end Frame

/-- A path from a level begins with a frame of it. -/
theorem Level.Nested.exists_cons (h : level.Nested frames) : ∃ f deeper, frames = f :: deeper := by
  cases h with
  | innermost _ _ => exact ⟨_, _, rfl⟩
  | inside _ _ _ _ => exact ⟨_, _, rfl⟩

/-- The last of the open elements has no navigation open. -/
theorem Level.Nested.getLast?_closed (h : level.Nested frames) :
    ∀ f ∈ frames.getLast?, f.isOpen = false := by
  induction h with
  | innermost _ hopen =>
    rintro _ ⟨⟩
    exact hopen
  | inside _ _ _ hdeeper ih =>
    obtain ⟨inner, deeper, rfl⟩ := hdeeper.exists_cons
    rwa [List.getLast?_cons_cons]

/-- An open element belongs to the open navigation of the one before it. -/
theorem Level.Nested.getElem?_succ (h : level.Nested frames) {d : Nat} {g : Frame}
    (hf : frames[d]? = some f) (hg : frames[d + 1]? = some g) :
    f.isOpen = true ∧ f.level.children[f.visited]? = some g.level := by
  induction h generalizing d with
  | innermost _ _ => simp at hg
  | inside hlevel hopen hchild hdeeper ih =>
    cases d with
    | zero =>
      cases hf
      obtain ⟨inner, deeper, rfl⟩ := hdeeper.exists_cons
      cases hg
      rw [hlevel, hdeeper.level_eq]
      exact ⟨hopen, hchild⟩
    | succ d => exact ih hf hg

/-- **Placing a row keeps the open elements sound.** -/
theorem Level.Nested.isSound_place (h : level.Nested (f :: deeper))
    (hsound : ∀ g ∈ f :: deeper, g.IsSound)
    (hplace : level.place row f deeper = .ok (events, frames)) : ∀ g ∈ frames, g.IsSound := by
  induction level generalizing f deeper frames events with
  | mk info children ih =>
    rcases place_cases hplace with
      ⟨-, -, rfl⟩ | ⟨pre, child, rest, rfl, hreaches, -, hplaced⟩
    · exact hsound
    · have hmem : child ∈ pre ++ child :: rest := by simp
      have hget := getElem?_children info pre child rest
      rw [List.forall_mem_cons] at hsound
      cases hplaced with
      | same hopen hvisited _ hbelow =>
        rw [← hvisited] at hget
        have hinner := ih child hmem (h.tail hopen hget) hsound.2 hbelow
        exact List.forall_mem_cons.2 ⟨hsound.1, hinner⟩
      | other _ _ hbelow =>
        have hlt : pre.length < f.level.children.length := by
          rw [h.level_eq]
          exact (List.getElem?_eq_some_iff.1 hget).1
        have hnew : (Frame.ofRow child row).IsSound := Frame.isSound_ofRow hreaches.present
        have hinner := ih child hmem (.ofRow child row) (List.forall_mem_singleton.2 hnew) hbelow
        exact List.forall_mem_cons.2 ⟨hsound.1.enter hlt, hinner⟩

/-! ## Paths -/

/-- **A path through a layout**: sound elements that are open from the root down. -/
structure Layout.IsPath (layout : Layout) (frames : List Frame) : Prop where
  nested : layout.Nested frames
  sound : ∀ f ∈ frames, f.IsSound

namespace Layout

theorem isPath_nil (layout : Layout) : layout.IsPath [] := ⟨.inl rfl, List.forall_mem_nil _⟩

namespace IsPath

/-- A path that is not empty begins at the root. -/
theorem root_nested (h : layout.IsPath (f :: deeper)) : layout.root.Nested (f :: deeper) :=
  h.nested.resolve_left (List.cons_ne_nil _ _)

/-- The deepest frame has no navigation open. -/
theorem getLast?_closed (h : layout.IsPath frames) : ∀ f ∈ frames.getLast?, f.isOpen = false := by
  rcases h.nested with rfl | hnested
  · exact nofun
  · exact hnested.getLast?_closed

/-- **A frame above another one is open at it**: that is a child, at the position visited last. -/
theorem getElem?_succ (h : layout.IsPath frames) {d : Nat} {g : Frame}
    (hf : frames[d]? = some f) (hg : frames[d + 1]? = some g) :
    f.isOpen = true ∧ f.level.children[f.visited]? = some g.level := by
  rcases h.nested with rfl | hnested
  · cases hf
  · exact hnested.getElem?_succ hf hg

theorem mem_levels (h : layout.IsPath frames) : ∀ f ∈ frames, f.level ∈ layout.levels := by
  rcases h.nested with rfl | hnested
  · exact List.forall_mem_nil _
  · exact hnested.mem_preorder

/-- **A row that is placed** keeps the path. -/
theorem placeRow (h : layout.IsPath frames)
    (hplace : layout.placeRow row frames = .ok (events, frames')) : layout.IsPath frames' := by
  refine ⟨h.nested.placeRow hplace, ?_⟩
  obtain ⟨hpresent, hplaced⟩ := placeRow_cases hplace
  cases hplaced with
  | same _ hbelow => exact h.root_nested.isSound_place h.sound hbelow
  | other _ _ hbelow =>
    have hnew : (Frame.ofRow layout.root row).IsSound := Frame.isSound_ofRow hpresent
    exact (Level.Nested.ofRow layout.root row).isSound_place (List.forall_mem_singleton.2 hnew)
      hbelow

/-- **Rows that are placed keep the frames on a path.** -/
theorem places (h : layout.IsPath frames)
    (hplaces : Places layout.placeRow frames rows events frames') : layout.IsPath frames' := by
  induction hplaces with
  | nil => exact h
  | cons head _ ih => exact ih (h.placeRow head)

end IsPath

end Layout

/-! ## Readers -/

/-- **What every step keeps** a scan keeps. -/
theorem Cursor.Scans.preserves {σ : Type} {step : σ → Option Row → σ × Verdict} {I : σ → Prop}
    {c : Cursor} {s : σ} {result : Except ReadError Unit × σ × Cursor}
    (h : Scans step c s result) (hs : I s)
    (hstep : ∀ s row s' verdict, I s → step s row = (s', verdict) → I s') : I result.2.1 := by
  induction h with
  | fault _ => exact hs
  | fail _ hfail => exact hstep _ _ _ _ hs hfail
  | done _ hdone => exact hstep _ _ _ _ hs hdone
  | more _ hmore _ ih => exact ih (hstep _ _ _ _ hs hmore)

namespace EventReader

variable {r : EventReader} {source : Cursor}
  {answers : List (Option (Except ReadError Event))}

/-- A row, or the end of rows, leaves a path open, also where the row cannot be placed. -/
theorem isPath_of_step (s : Progress) (row : Option Row) (s' : Progress)
    (verdict : Cursor.Verdict) (h : layout.IsPath s.frames)
    (hstep : step layout s row = (s', verdict)) : layout.IsPath s'.frames := by
  cases row with
  | none =>
    cases hstep
    exact layout.isPath_nil
  | some row =>
    rw [step] at hstep
    split at hstep
    · cases hstep
      exact h
    · next hplace =>
      cases hstep
      exact h.placeRow hplace

/-- **A reader whose open elements are a path** through a layout. -/
structure OnPath (layout : Layout) (r : EventReader) : Prop where
  layout_eq : r.layout = layout
  isPath : layout.IsPath r.frames

namespace OnPath

theorem signal (h : OnPath layout r) (raised : Bool) : OnPath layout (r.signal raised) :=
  ⟨h.layout_eq, h.isPath⟩

theorem fail (h : OnPath layout r) : OnPath layout r.fail := ⟨h.layout_eq, h.isPath⟩

theorem pop (h : OnPath layout r) : OnPath layout r.pop.2 := by
  rw [EventReader.pop]
  split <;> exact ⟨h.layout_eq, h.isPath⟩

/-- A read keeps the frames on a path. -/
theorem proceed (h : OnPath layout r) : OnPath layout r.proceed.2 := by
  obtain ⟨rfl, hpath⟩ := h
  have hproceeds := r.proceeds
  have hscans := scans r.layout r.cursor ⟨r.frames, r.queue, r.drained, r.placed⟩
  have hframes : r.layout.IsPath (r.cursor.scan (step r.layout) _).2.1.frames :=
    hscans.preserves (I := fun s => r.layout.IsPath s.frames) hpath isPath_of_step
  generalize r.proceed = result at hproceeds ⊢
  cases hproceeds with
  | popped => exact pop ⟨rfl, hpath⟩
  | @failed e s cursor _ _ hscan =>
    rw [hscan] at hframes
    exact fail ⟨rfl, hframes⟩
  | @scanned s cursor _ _ hscan =>
    rw [hscan] at hframes
    exact pop ⟨rfl, hframes⟩

/-- So does a read with the first look at the signal. -/
theorem readWith (h : OnPath layout r) (raised : Bool) : OnPath layout (r.readWith raised).2 := by
  rw [EventReader.readWith]
  split
  · exact h.signal raised
  · split
    · exact (h.signal raised).fail
    · exact (h.signal raised).proceed

/-- **A call, interrupted or not**, keeps the path. -/
theorem call (h : OnPath layout r) (how : Asking) (raised : Bool) :
    OnPath layout (r.call how raised).2 := by
  cases how with
  | read => exact h.readWith raised
  | next =>
    rw [EventReader.call]
    split
    · exact h.signal raised
    · exact h.readWith raised

end OnPath

/-- **Whatever is done with a reader**, what it leaves open is a path. -/
theorem onPath_of_plays (h : consumer.Plays (ofCursor layout source) answers r) :
    OnPath layout r :=
  (h.keeps (A := fun _ => True) ⟨rfl, layout.isPath_nil⟩
    (fun how raised _ hs => ⟨trivial, hs.call how raised⟩) fun _ hs => hs.signal true).2

end EventReader

end QueryPlans
