import QueryPlans.Proofs.Ownership.Gathering

/-!
# Proofs/Ownership/Placement — what an accepted row leaves open

The open elements are a path through the levels: each but the last has one navigation open, and the
next element is an entity of it (`Level.Nested`).  A row is placed along one such path only, so what
it has beside the path is lost.  Hence every level that an accepted row shows has an open element
for it exactly if the row is in the union layout (`Layout.covers_iff_isUnited`).
-/

namespace QueryPlans

/-! ## Columns along the levels -/

namespace Level

variable {level : Level} {cells : Cells}

/-- The navigation behind those before it. -/
theorem getElem?_children (info : LevelInfo) (pre : List Level) (child : Level)
    (rest : List Level) : (mk info (pre ++ child :: rest)).children[pre.length]? = some child := by
  simp [children]

/-- A level that a row shows has one of its columns there. -/
theorem WellFormed.exists_column (h : level.WellFormed) {other : Level}
    (hother : other ∈ level.preorder) (hpresent : other.info.isPresentIn cells = true) :
    ∃ c ∈ other.info.columns, c ∈ level.info.subtreeColumns := by
  obtain ⟨c, hc, -⟩ := List.any_eq_true.1 hpresent
  exact ⟨c, hc, h.mem_subtree_iff.2 ⟨other, hother, hc⟩⟩

/-- Cells with a value in a subtree show one of its levels. -/
theorem WellFormed.exists_present (h : level.WellFormed)
    (hsubtree : level.info.isSubtreePresentIn cells = true) :
    ∃ other ∈ level.preorder, other.info.isPresentIn cells = true := by
  obtain ⟨c, hc, hvalue⟩ := List.any_eq_true.1 hsubtree
  obtain ⟨other, hother, hown⟩ := h.mem_subtree_iff.1 hc
  exact ⟨other, hother, List.any_eq_true.2 ⟨c, hown, hvalue⟩⟩

/-- Cells without a value in a subtree show none of its levels and are united there. -/
theorem WellFormed.blank_below (h : level.WellFormed)
    (hblank : level.info.isSubtreePresentIn cells = false) {other : Level}
    (hother : other ∈ level.preorder) :
    other.info.isPresentIn cells = false ∧ other.Unites cells := by
  have hnone : ∀ c ∈ level.info.subtreeColumns, (cells c).isNull = true := by
    simpa [LevelInfo.isSubtreePresentIn, Cells.anyPresent] using hblank
  have howns := (h.of_mem_preorder hother).owns
  refine ⟨?_, ?_⟩
  · have hcolumns : ∀ c ∈ other.info.columns, (cells c).isNull = true :=
      fun c hc => hnone c (h.subtree_mono hother (howns.subtree_of_mem hc))
    simpa [LevelInfo.isPresentIn, Cells.anyPresent] using hcolumns
  · refine List.pairwise_of_forall_mem_list fun a ha b hb _ => ?_
    have hcolumns : ∀ c ∈ b.info.subtreeColumns, (cells c).isNull = true :=
      fun c hc => hnone c (h.subtree_mono hother (howns.subtree_of_child hb hc))
    simpa [LevelInfo.isSubtreePresentIn, Cells.anyPresent] using hcolumns

end Level

/-! ## Open elements along the levels -/

/-- **Open elements from a level down**: each but the last has the navigation open that the next one
belongs to. -/
inductive Level.Nested : Level → List Frame → Prop
  | innermost {level : Level} {f : Frame} (hlevel : f.level = level) (hopen : f.isOpen = false) :
    Nested level [f]
  | inside {level child : Level} {f : Frame} {deeper : List Frame} (hlevel : f.level = level)
    (hopen : f.isOpen = true) (hchild : level.children[f.visited]? = some child)
    (hdeeper : child.Nested deeper) : Nested level (f :: deeper)

namespace Level.Nested

variable {level : Level} {row : Row} {f : Frame} {deeper frames : List Frame} {below : List Event}

/-- One frame of a level is a nest. -/
theorem ofRow (level : Level) (row : Row) : level.Nested [.ofRow level row] := .innermost rfl rfl

/-- The outermost frame of a nest is of its level. -/
theorem level_eq (h : level.Nested (f :: deeper)) : f.level = level := by
  cases h with
  | innermost hlevel _ => exact hlevel
  | inside hlevel _ _ _ => exact hlevel

/-- The elements below an open navigation are nested in it. -/
theorem tail (h : level.Nested (f :: deeper)) (hopen : f.isOpen = true) {child : Level}
    (hchild : level.children[f.visited]? = some child) : child.Nested deeper := by
  cases h with
  | innermost _ hclosed => simp [hclosed] at hopen
  | inside _ _ hchild' hdeeper => exact Option.some.inj (hchild'.symm.trans hchild) ▸ hdeeper

/-- Every open element belongs to the level or one below it. -/
theorem mem_preorder (h : level.Nested frames) : ∀ f ∈ frames, f.level ∈ level.preorder := by
  induction h with
  | innermost hlevel _ =>
    rw [List.forall_mem_singleton, hlevel]
    exact mem_preorder_self _
  | @inside level child f deeper hlevel _ hchild _ ih =>
    obtain ⟨info, children⟩ := level
    rw [List.forall_mem_cons, hlevel]
    refine ⟨mem_preorder_self _, fun g hg => ?_⟩
    exact mem_preorder_iff.2 (.inr ⟨child, List.mem_of_getElem? hchild, ih g hg⟩)

/-- **Placing a row keeps the open elements nested.** -/
theorem place (h : level.Nested (f :: deeper))
    (hplace : level.place row f deeper = .ok (below, frames)) : level.Nested frames := by
  induction level generalizing f deeper frames below with
  | mk info children ih =>
    rcases place_cases hplace with
      ⟨-, -, rfl⟩ | ⟨pre, child, rest, rfl, -, -, hplaced⟩
    · exact h
    · have hmem : child ∈ pre ++ child :: rest := by simp
      have hget := getElem?_children info pre child rest
      cases hplaced with
      | same hopen hvisited _ hbelow =>
        rw [← hvisited] at hget
        exact .inside h.level_eq hopen hget (ih child hmem (h.tail hopen hget) hbelow)
      | other _ _ hbelow =>
        exact .inside h.level_eq rfl hget (ih child hmem (.ofRow child row) hbelow)

end Level.Nested

/-! ## What a row leaves open -/

/-- **A level with an open element** for the entity that cells show. -/
def Level.IsCovered (frames : List Frame) (cells : Cells) (level : Level) : Prop :=
  ∃ f ∈ frames, f.level = level ∧ level.info.isSame f.row.toCells cells = true

/-- Every level that cells show, from a level down, is covered. -/
def Level.Covers (frames : List Frame) (cells : Cells) (level : Level) : Prop :=
  ∀ other ∈ level.preorder, other.info.isPresentIn cells = true → other.IsCovered frames cells

section

variable {info : LevelInfo} {pre rest : List Level} {child : Level} {cells : Cells} {f : Frame}
  {opened : List Frame}

/-- A row that is blank below an element leaves the element open for its level. -/
theorem Level.covers_of_blank {children : List Level} (hwf : (mk info children).WellFormed)
    (hlevel : f.level = mk info children) (hsame : info.isSame f.row.toCells cells = true)
    (hframes : f ∈ opened)
    (hblank : ∀ child ∈ children, child.info.isSubtreePresentIn cells = false) :
    (mk info children).Covers opened cells ∧
      ∀ other ∈ (mk info children).preorder, other.Unites cells := by
  refine ⟨fun other hother hpresent => ?_, fun other hother => ?_⟩
  · rcases mem_preorder_iff.1 hother with rfl | ⟨child, hchild, hbelow⟩
    · exact ⟨f, hframes, hlevel, hsame⟩
    · have habsent := ((hwf.child hchild).blank_below (hblank child hchild) hbelow).1
      simp [habsent] at hpresent
  · rcases mem_preorder_iff.1 hother with rfl | ⟨child, hchild, hbelow⟩
    · exact List.pairwise_of_forall_mem_list fun a _ b hb _ => hblank b hb
    · exact ((hwf.child hchild).blank_below (hblank child hchild) hbelow).2

/-- A level that is shown below one navigation is not among the elements of another, nor is it the
level of both. -/
theorem Level.WellFormed.not_elsewhere (hwf : (Level.mk info (pre ++ child :: rest)).WellFormed)
    (hlevel : f.level = Level.mk info (pre ++ child :: rest))
    (hopened : ∀ g ∈ opened, g.level ∈ child.preorder) {branch : Level} (hbranch : branch ∈ rest)
    {other : Level} (hother : other ∈ branch.preorder)
    (hpresent : other.info.isPresentIn cells = true) : ¬ other.IsCovered (f :: opened) cells := by
  rintro ⟨g, hg, rfl, -⟩
  have hmem : branch ∈ (Level.mk info (pre ++ child :: rest)).children := by
    simp [children, hbranch]
  have hmem' : child ∈ (Level.mk info (pre ++ child :: rest)).children := by simp [children]
  obtain ⟨c, hc, hsubtree⟩ := (hwf.child hmem).exists_column hother hpresent
  rcases List.mem_cons.1 hg with rfl | hg
  · rw [hlevel] at hc
    exact hwf.owns.disjoint_below branch hmem hc hsubtree
  · have hown := ((hwf.child hmem').of_mem_preorder (hopened g hg)).owns.subtree_of_mem hc
    have hchild := (hwf.child hmem').subtree_mono (hopened g hg) hown
    have hsiblings := (List.pairwise_append.1 hwf.owns.disjoint_siblings).2.1
    exact (List.pairwise_cons.1 hsiblings).1 branch hbranch hchild hsubtree

/-- Below the navigation that a row comes to, only the elements there count. -/
theorem Level.WellFormed.isCovered_tail (hwf : (Level.mk info (pre ++ child :: rest)).WellFormed)
    (hlevel : f.level = Level.mk info (pre ++ child :: rest)) {other : Level}
    (hother : other ∈ child.preorder) (hpresent : other.info.isPresentIn cells = true)
    (hcovered : other.IsCovered (f :: opened) cells) : other.IsCovered opened cells := by
  obtain ⟨g, hg, hshown, hsame⟩ := hcovered
  have hmem : child ∈ (Level.mk info (pre ++ child :: rest)).children := by simp [children]
  rcases List.mem_cons.1 hg with rfl | hg
  · obtain ⟨c, hc, hsubtree⟩ := (hwf.child hmem).exists_column hother hpresent
    rw [← hshown, hlevel] at hc
    exact absurd hsubtree (hwf.owns.disjoint_below child hmem hc)
  · exact ⟨g, hg, hshown, hsame⟩

/-- **One element on the path of a row**: nothing is lost from there on exactly if nothing is lost
below the navigation that the row comes to, and it is blank to those behind. -/
theorem Level.covers_reached (hwf : (mk info (pre ++ child :: rest)).WellFormed)
    (hlevel : f.level = mk info (pre ++ child :: rest))
    (hsame : info.isSame f.row.toCells cells = true)
    (hopened : ∀ g ∈ opened, g.level ∈ child.preorder)
    (hpre : ∀ other ∈ pre, other.info.isSubtreePresentIn cells = false)
    (hchild : child.info.isSubtreePresentIn cells = true)
    (hbelow : child.Covers opened cells ↔ ∀ other ∈ child.preorder, other.Unites cells) :
    (mk info (pre ++ child :: rest)).Covers (f :: opened) cells ↔
      ∀ other ∈ (mk info (pre ++ child :: rest)).preorder, other.Unites cells := by
  constructor
  · intro hcovers
    have hmem {branch other : Level} (hbranch : branch ∈ pre ++ child :: rest)
        (hother : other ∈ branch.preorder) : other ∈ (mk info (pre ++ child :: rest)).preorder :=
      mem_preorder_iff.2 (.inr ⟨branch, hbranch, hother⟩)
    -- A value below a later navigation shows a level there, and no open element is its own.
    have hrest : ∀ branch ∈ rest, branch.info.isSubtreePresentIn cells = false := by
      intro branch hbranch
      have hbranch' : branch ∈ pre ++ child :: rest := by simp [hbranch]
      by_contra hshown
      obtain ⟨other, hother, hpresent⟩ :=
        (hwf.child hbranch').exists_present (Bool.not_eq_false _ ▸ hshown)
      exact hwf.not_elsewhere hlevel hopened hbranch hother hpresent
        (hcovers other (hmem hbranch' hother) hpresent)
    have hunites : ∀ other ∈ child.preorder, other.Unites cells :=
      hbelow.1 fun other hother hpresent =>
        hwf.isCovered_tail hlevel hother hpresent (hcovers other (hmem (by simp) hother) hpresent)
    intro other hother
    rcases mem_preorder_iff.1 hother with rfl | ⟨branch, hbranch, hinside⟩
    · refine List.pairwise_append.2 ⟨?_, ?_, ?_⟩
      · exact List.pairwise_of_forall_mem_list fun a ha b _ hshown => by simp [hpre a ha] at hshown
      · exact List.pairwise_cons.2 ⟨fun b hb _ => hrest b hb,
          List.pairwise_of_forall_mem_list fun a _ b hb _ => hrest b hb⟩
      · exact fun a ha b _ hshown => by simp [hpre a ha] at hshown
    · have hwf' := hwf.child hbranch
      rcases List.mem_append.1 hbranch with hbefore | hbehind
      · exact (hwf'.blank_below (hpre branch hbefore) hinside).2
      · rcases List.mem_cons.1 hbehind with rfl | hbehind
        · exact hunites other hinside
        · exact (hwf'.blank_below (hrest branch hbehind) hinside).2
  · intro hunites other hother hpresent
    have hself := List.pairwise_append.1 (hunites _ (mem_preorder_self _))
    have hrest : ∀ branch ∈ rest, branch.info.isSubtreePresentIn cells = false :=
      fun branch hbranch => (List.pairwise_cons.1 hself.2.1).1 branch hbranch hchild
    rcases mem_preorder_iff.1 hother with rfl | ⟨branch, hbranch, hinside⟩
    · exact ⟨f, List.mem_cons_self, hlevel, hsame⟩
    · have hwf' := hwf.child hbranch
      rcases List.mem_append.1 hbranch with hbefore | hbehind
      · simp [(hwf'.blank_below (hpre branch hbefore) hinside).1] at hpresent
      · rcases List.mem_cons.1 hbehind with rfl | hbehind
        · have hcovers := hbelow.2 fun other hother =>
            hunites other (mem_preorder_iff.2 (.inr ⟨branch, hbranch, hother⟩))
          obtain ⟨g, hg, hshown⟩ := hcovers other hinside hpresent
          exact ⟨g, List.mem_cons_of_mem f hg, hshown⟩
        · simp [(hwf'.blank_below (hrest branch hbehind) hinside).1] at hpresent

end

/-- **Nothing that a row shows from a level down is lost** exactly if the row is united there. -/
theorem Level.Nested.covers_iff {level : Level} {row : Row} {f : Frame} {deeper frames : List Frame}
    {below : List Event} (h : level.Nested (f :: deeper)) (hwf : level.WellFormed)
    (hsame : level.info.isSame f.row.toCells row.toCells = true)
    (hplace : level.place row f deeper = .ok (below, frames)) :
    level.Covers frames row.toCells ↔ ∀ other ∈ level.preorder, other.Unites row.toCells := by
  induction level generalizing f deeper frames below with
  | mk info children ih =>
    rcases place_cases hplace with
      ⟨hblank, -, rfl⟩ | ⟨pre, child, rest, rfl, hreaches, -, hplaced⟩
    · obtain ⟨hcovers, hunites⟩ := covers_of_blank hwf h.level_eq hsame List.mem_cons_self
        fun child hchild => LevelInfo.isSubtreePresent_of_ok (hblank child hchild)
      exact iff_of_true hcovers hunites
    · have hmem : child ∈ pre ++ child :: rest := by simp
      have hget := getElem?_children info pre child rest
      cases hplaced with
      | same hopen hvisited hinner hbelow =>
        rw [← hvisited] at hget
        have hnested := h.tail hopen hget
        exact covers_reached hwf h.level_eq hsame (hnested.place hbelow).mem_preorder
          hreaches.blank_before hreaches.shown
          (ih child hmem hnested (hwf.child hmem) (LevelInfo.sameEntity_of_ok hinner) hbelow)
      | other _ _ hbelow =>
        have hnested := ofRow child row
        exact covers_reached hwf h.level_eq hsame (hnested.place hbelow).mem_preorder
          hreaches.blank_before hreaches.shown
          (ih child hmem hnested (hwf.child hmem) (child.info.isSame_self _) hbelow)

/-! ## Rows of a layout -/

/-- Open elements from the root down. -/
def Layout.Nested (layout : Layout) (frames : List Frame) : Prop :=
  frames = [] ∨ layout.root.Nested frames

namespace Layout

variable {layout : Layout} {row : Row} {rows : List Row} {frames frames' : List Frame}
  {events below : List Event}

/-- **A placed row keeps the frames nested.** -/
theorem Nested.placeRow (h : layout.Nested frames)
    (hplace : layout.placeRow row frames = .ok (below, frames')) : layout.Nested frames' := by
  obtain ⟨-, hplaced⟩ := placeRow_cases hplace
  cases hplaced with
  | same _ hbelow => exact .inr ((h.resolve_left (List.cons_ne_nil _ _)).place hbelow)
  | other _ _ hbelow => exact .inr ((Level.Nested.ofRow layout.root row).place hbelow)

/-- **Whatever rows are placed**, the open elements are nested. -/
theorem Nested.places (h : layout.Nested frames)
    (hplaces : Places layout.placeRow frames rows events frames') : layout.Nested frames' := by
  induction hplaces with
  | nil => exact h
  | cons head _ ih => exact ih (h.placeRow head)

/-- **What an accepted row leaves open.**  After any rows, every level that the next row shows has
an open element for its entity there exactly if the row is in the union layout: of a row with values
below two navigations of a level, the reader places those below the first and drops the others. -/
theorem covers_iff_isUnited {spec : LevelSpec} (hlayout : spec.layout = .ok layout)
    (hplaces : Places layout.placeRow [] rows events frames)
    (hplace : layout.placeRow row frames = .ok (below, frames')) :
    (∀ level ∈ layout.levels, level.info.isPresentIn row.toCells = true →
      level.IsCovered frames' row.toCells) ↔ layout.IsUnited row := by
  have hwf := spec.wellFormed_of_layout hlayout
  have hnested : layout.Nested frames := Nested.places (.inl rfl) hplaces
  obtain ⟨-, hplaced⟩ := placeRow_cases hplace
  cases hplaced with
  | same hsame hbelow =>
    exact (hnested.resolve_left (List.cons_ne_nil _ _)).covers_iff hwf
      (LevelInfo.sameEntity_of_ok hsame) hbelow
  | other _ _ hbelow =>
    exact (Level.Nested.ofRow layout.root row).covers_iff hwf (layout.root.info.isSame_self _)
      hbelow

end Layout

/-! ## Contacts -/

/-- People with their phones and their mails. -/
def LevelSpec.contacts : LevelSpec :=
  ((empty.key "Id" 0).navigation "Phones" .collection (empty.key "Phone" 1)).navigation "Mails"
    .collection (empty.key "Mail" 2)

/-- Phone numbers of a contact. -/
def Level.phones : Level :=
  .mk ⟨1, .navigation "Phones" .collection, [⟨"Phone", 1⟩], [1], [1], [1], some 0, 1⟩ []

/-- Mail addresses of a contact, beside its phone numbers. -/
def Level.mails : Level :=
  .mk ⟨2, .navigation "Mails" .collection, [⟨"Mail", 2⟩], [2], [2], [2], some 0, 1⟩ []

/-- Contacts by `Id`, with two collections side by side. -/
def Layout.contacts : Layout where
  root := .mk ⟨0, .root, [⟨"Id", 0⟩], [0], [0], [0, 1, 2], none, 0⟩ [.phones, .mails]
  continuation := []
  width := 3

/-- A phone and then a mail: the mail is open. -/
theorem covers_iff_isUnited_contacts :
    let first : Row := ⟨[.int 1, .int 7, .null]⟩
    let next : Row := ⟨[.int 1, .null, .int 8]⟩
    let opened : List Frame := [⟨Layout.contacts.root, first, 1, true⟩, .ofRow .mails next]
    Layout.contacts.placeRow next [⟨Layout.contacts.root, first, 0, true⟩, .ofRow .phones first] =
        .ok ([.endElement 1, .endResource 1, .startResource 2,
          .startElement 2 [("Mail", .int 8)]], opened) ∧
      ∀ level ∈ Layout.contacts.levels, level.info.isPresentIn next.toCells = true →
        level.IsCovered opened next.toCells := by
  intro first next opened
  have hplaces : Places Layout.contacts.placeRow [] [first] _
      [⟨Layout.contacts.root, first, 0, true⟩, .ofRow .phones first] := .cons rfl .nil
  have hlayout : LevelSpec.contacts.layout = .ok .contacts := rfl
  exact ⟨rfl, (Layout.covers_iff_isUnited hlayout hplaces rfl).2 (by decide)⟩

/-- **A phone and a mail in one row**: the row is accepted, and the stream ends without the mail,
which the entry of the same row has. -/
theorem mail_not_covered :
    let row : Row := ⟨[.int 1, .int 7, .int 8]⟩
    let opened : List Frame := [⟨Layout.contacts.root, row, 0, true⟩, .ofRow .phones row]
    let phone : List Event := [.startElement 0 [("Id", .int 1)], .startResource 1,
      .startElement 1 [("Phone", .int 7)]]
    LevelSpec.contacts.layout = .ok .contacts ∧
      Layout.contacts.placeRow row [] = .ok (phone, opened) ∧
      Level.mails ∈ Layout.contacts.levels ∧
      Level.mails.info.isPresentIn row.toCells = true ∧
      ¬ Level.mails.IsCovered opened row.toCells ∧
      (EventReader.ofCursor .contacts (.ofDeliveries [.row row])).Reads (phone ++
        [.endElement 1, .endResource 1, .startResource 2, .endResource 2, .endElement 0,
          .endOfRows]) none ∧
      (Materializer.ofCursor .contacts (.ofDeliveries [.row row]) 1).Drains
        [.mk [("Id", .int 1)] [("Phones", .collection [.mk [("Phone", .int 7)] []]),
          ("Mails", .collection [.mk [("Mail", .int 8)] []])]] none := by
  intro row opened phone
  have hplace : Layout.contacts.placeRow row [] = .ok (phone, opened) := rfl
  have hplaces : Places Layout.contacts.placeRow [] [row] phone opened :=
    .append_eq (.cons hplace .nil) (List.append_nil phone)
  have hawaits : (EventReader.ofCursor .contacts (.ofDeliveries [.row row])).Awaits .contacts []
      [row] := EventReader.awaits_ofCursor (Cursor.serves_ofDeliveries [row])
  have hreads := hawaits.reads_of_places hplaces (by decide)
  have hmails : Level.mails ∈ Layout.contacts.levels := .tail _ (.tail _ (.head _))
  refine ⟨rfl, hplace, hmails, by decide, ?_, hreads, .of_fst_some rfl (.of_fst_none rfl)⟩
  rintro ⟨f, hf, hlevel, -⟩
  simp only [opened, List.mem_cons, List.not_mem_nil, or_false] at hf
  rcases hf with rfl | rfl <;> exact absurd (congrArg Level.index hlevel) (by decide)

end QueryPlans
