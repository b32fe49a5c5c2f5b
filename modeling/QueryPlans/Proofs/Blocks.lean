import Mathlib.Data.List.SplitBy

/-!
# Proofs/Blocks — blocks of equivalent neighbours

Splitting a list into its blocks of related neighbours can be done from left to right: the next
element joins the last block or begins another (`splitBy_concat`).  Under an equivalence all
elements of a block are related, and none of them to a neighbour of the block
(`IsEquivalence.isBlock`).  Where a list is given in parts of related elements, its blocks are these
parts, or join some of them (`length_splitBy_flatten_le`).
-/

namespace QueryPlans

variable {α : Type}

/-- Lets the last of several take something, or else appends another one. -/
def growLast (takes : α → Bool) (grow : α → α) (next : α) (as : List α) : List α :=
  match as.getLast? with
  | none => [next]
  | some a => if takes a then as.dropLast ++ [grow a] else as ++ [next]

section

variable (takes : α → Bool) (grow : α → α) (next : α)

@[simp] theorem growLast_nil : growLast takes grow next [] = [next] := rfl

@[simp] theorem growLast_concat (as : List α) (a : α) :
    growLast takes grow next (as ++ [a]) =
      if takes a then as ++ [grow a] else as ++ [a] ++ [next] := by
  simp [growLast]

theorem growLast_cons_cons (a b : α) (as : List α) :
    growLast takes grow next (a :: b :: as) = a :: growLast takes grow next (b :: as) := by
  rcases List.eq_nil_or_concat' (b :: as) with hnil | ⟨init, last, hconcat⟩
  · cases hnil
  · rw [hconcat, ← List.cons_append, growLast_concat, growLast_concat]
    split <;> rfl

end

/-- Letting the last take something keeps lists related. -/
theorem forall₂_growLast {β : Type} {R : α → β → Prop} {takes : α → Bool} {takes' : β → Bool}
    {grow : α → α} {grow' : β → β} {next : α} {next' : β} {as : List α} {bs : List β}
    (h : List.Forall₂ R as bs) (htakes : ∀ a b, R a b → takes a = takes' b)
    (hgrow : ∀ a b, R a b → R (grow a) (grow' b)) (hnext : R next next') :
    List.Forall₂ R (growLast takes grow next as) (growLast takes' grow' next' bs) := by
  induction h with
  | nil => exact .cons hnext .nil
  | @cons a b _ _ head tail ih =>
    cases tail with
    | nil =>
      change List.Forall₂ R (if takes a then [grow a] else [a, next])
        (if takes' b then [grow' b] else [b, next'])
      rw [htakes a b head]
      split
      · exact .cons (hgrow a b head) .nil
      · exact .cons head (.cons hnext .nil)
    | cons _ _ =>
      rw [growLast_cons_cons, growLast_cons_cons]
      exact .cons head ih

/-- Changing the last element. -/
theorem forall₂_concat_of_forall₂_concat {β : Type} {R : α → β → Prop} {as : List α} {bs : List β}
    {b b' : β} (h : List.Forall₂ R as (bs ++ [b])) (hlast : ∀ a, R a b → R a b') :
    List.Forall₂ R as (bs ++ [b']) := by
  induction bs generalizing as with
  | nil =>
    obtain ⟨a, _, hab, hnil, rfl⟩ := List.forall₂_cons_right_iff.1 h
    exact .cons (hlast a hab) hnil
  | cons _ _ ih =>
    obtain ⟨a, _, hab, htail, rfl⟩ := List.forall₂_cons_right_iff.1 h
    exact .cons hab (ih htail)

theorem map_eq_map_of_forall₂ {β γ : Type} {R : α → β → Prop} {f : α → γ} {g : β → γ}
    {as : List α} {bs : List β} (h : List.Forall₂ R as bs)
    (heq : ∀ a ∈ as, ∀ b ∈ bs, R a b → f a = g b) : as.map f = bs.map g := by
  induction h with
  | nil => rfl
  | cons head _ ih =>
    rw [List.map_cons, List.map_cons, heq _ List.mem_cons_self _ List.mem_cons_self head,
      ih fun a ha b hb => heq a (List.mem_cons_of_mem _ ha) b (List.mem_cons_of_mem _ hb)]

/-- An equivalence with values in the Booleans. -/
structure IsEquivalence (r : α → α → Bool) : Prop where
  self : ∀ a, r a a = true
  symm : ∀ {a b}, r a b = true → r b a = true
  trans : ∀ {a b c}, r a b = true → r b c = true → r a c = true

theorem IsEquivalence.comap {β : Type} {r : α → α → Bool} (h : IsEquivalence r) (f : β → α) :
    IsEquivalence fun a b => r (f a) (f b) := ⟨fun a => h.self (f a), h.symm, h.trans⟩

/-- What is related to the same is related to the same. -/
theorem IsEquivalence.congr {r : α → α → Bool} (h : IsEquivalence r) {a b : α}
    (hab : r a b = true) (c : α) : r a c = r b c :=
  Bool.eq_iff_iff.2 ⟨h.trans (h.symm hab), h.trans hab⟩

section

variable {r : α → α → Bool} {as block part : List α} {parts : List (List α)} {a : α}

/-- The last block ends with the last member. -/
theorem exists_splitBy_concat (r : α → α → Bool) (hne : as ≠ []) :
    ∃ blocks block, ∃ hblock : block ≠ [], as.splitBy r = blocks ++ [block] ∧
      block.getLast hblock = as.getLast hne := by
  have hsplit : as.splitBy r ≠ [] := List.splitBy_ne_nil.2 hne
  refine ⟨_, _, List.ne_nil_of_mem_splitBy (List.getLast_mem hsplit),
    (List.dropLast_append_getLast hsplit).symm, List.getLast_getLast_splitBy r hne⟩

/-- **The next element** joins the last block or begins another. -/
theorem splitBy_concat (r : α → α → Bool) (as : List α) (a : α) :
    (as ++ [a]).splitBy r =
      growLast (fun block => block.getLast?.any fun last => r last a) (· ++ [a]) [a]
        (as.splitBy r) := by
  by_cases hne : as = []
  · subst hne
    rfl
  · obtain ⟨blocks, block, hblock, hsplit, hlast⟩ := exists_splitBy_concat r hne
    rw [hsplit, growLast_concat, List.getLast?_eq_some_getLast hblock, Option.any_some]
    cases hjoins : r (block.getLast hblock) a with
    | false =>
      have hother : ∀ x ∈ as.getLast?, r x a = false := by
        simpa [List.getLast?_eq_some_getLast hne, ← hlast]
      rw [List.splitBy_append_cons [] hother, hsplit]
      rfl
    | true =>
      obtain ⟨hflatten, hnil, hchain, hapart⟩ := List.splitBy_eq_iff.1 hsplit
      rw [if_pos rfl, List.splitBy_eq_iff]
      refine ⟨by simp [hflatten], ?_, ?_, ?_⟩
      · simp only [List.mem_append, List.mem_singleton, not_or] at hnil ⊢
        exact ⟨hnil.1, (List.append_ne_nil_of_right_ne_nil _ (List.cons_ne_nil a [])).symm⟩
      · simp only [List.forall_mem_append, List.forall_mem_singleton] at hchain ⊢
        refine ⟨hchain.1, List.isChain_append.2 ⟨hchain.2, .singleton a, ?_⟩⟩
        simpa [List.getLast?_eq_some_getLast hblock] using hjoins
      · rw [List.isChain_append] at hapart ⊢
        refine ⟨hapart.1, .singleton _, fun former hformer next hnext => ?_⟩
        obtain rfl : block ++ [a] = next := by simpa using hnext
        obtain ⟨ha, hb, hdiffer⟩ := hapart.2.2 former hformer block rfl
        exact ⟨ha, by simp, by simpa [List.head_append, hb] using hdiffer⟩

/-- All elements of a block are related. -/
theorem IsEquivalence.of_mem_splitBy (h : IsEquivalence r) (hblock : block ∈ as.splitBy r) :
    ∀ a ∈ block, ∀ b ∈ block, r a b = true := by
  have hchain := List.isChain_of_mem_splitBy hblock
  have : Trans (fun x y => r x y = true) (fun x y => r x y = true) (fun x y => r x y = true) :=
    ⟨h.trans⟩
  have : Std.Symm fun x y => r x y = true := ⟨fun _ _ => h.symm⟩
  have hpairwise : block.Pairwise fun x y => r x y = true := List.isChain_iff_pairwise.1 hchain
  exact fun a ha b hb => hpairwise.forall_of_forall (fun x _ => h.self x) ha hb

/-! ## Blocks that may be joined -/

/-- **Parts of a list**, each of elements that are all related. -/
structure AreRelated (r : α → α → Bool) (parts : List (List α)) : Prop where
  ne_nil : ∀ part ∈ parts, part ≠ []
  related : ∀ part ∈ parts, ∀ a ∈ part, ∀ b ∈ part, r a b = true

/-- Neighbouring parts that begin with elements that are not related. -/
def HeadsDiffer (r : α → α → Bool) (parts : List (List α)) : Prop :=
  parts.IsChain fun p q => ∀ a ∈ p.head?, ∀ b ∈ q.head?, r a b = false

/-- The members of a part are related one to the next. -/
theorem AreRelated.isChain (h : AreRelated r parts) (hpart : part ∈ parts) :
    part.IsChain fun a b => r a b = true :=
  (List.pairwise_of_forall_mem_list (h.related part hpart)).isChain

/-- **Parts are the blocks of what they make up** when no two neighbours are related. -/
theorem splitBy_flatten_eq_iff (hr : IsEquivalence r) (h : AreRelated r parts) :
    parts.flatten.splitBy r = parts ↔ HeadsDiffer r parts := by
  have hnil : [] ∉ parts := fun hmem => h.ne_nil [] hmem rfl
  rw [List.splitBy_eq_iff, and_iff_right rfl, and_iff_right hnil,
    and_iff_right fun part hpart => h.isChain hpart]
  refine List.IsChain.iff_of_mem_imp fun p q hp hq => ?_
  have hlast := h.related p hp _ (List.getLast_mem (h.ne_nil p hp)) _
    (List.head_mem (h.ne_nil p hp))
  simp [h.ne_nil p hp, h.ne_nil q hq, List.head?_eq_some_head, hr.congr hlast]

/-- Elements that are related to the last one begin no block. -/
theorem length_splitBy_append (hpart : part.IsChain fun a b => r a b = true)
    (hlast : a ∈ as.getLast?) (hjoins : ∀ b ∈ part.head?, r a b = true) :
    ((as ++ part).splitBy r).length = (as.splitBy r).length := by
  induction part generalizing as a with
  | nil => rw [List.append_nil]
  | cons b rest ih =>
    have hne : as ≠ [] := by
      rintro rfl
      cases hlast
    obtain ⟨blocks, block, hblock, hsplit, hend⟩ := exists_splitBy_concat r hne
    rw [List.getLast?_eq_some_getLast hne, Option.mem_some_iff, ← hend] at hlast
    subst hlast
    rw [List.append_cons, ih hpart.tail (by simp) (List.isChain_cons.1 hpart).1, splitBy_concat,
      hsplit, growLast_concat, List.getLast?_eq_some_getLast hblock, Option.any_some,
      hjoins b rfl, if_pos rfl, List.length_append, List.length_append]
    rfl

/-- **What parts make up has no more blocks than parts**, and as many only if these are the
blocks. -/
theorem length_splitBy_flatten_le (h : AreRelated r parts) :
    (parts.flatten.splitBy r).length ≤ parts.length ∧
      ((parts.flatten.splitBy r).length = parts.length → parts.flatten.splitBy r = parts) := by
  induction parts using List.reverseRecOn with
  | nil => exact ⟨Nat.le_refl _, fun _ => rfl⟩
  | append_singleton parts part ih =>
    obtain ⟨hle, heq⟩ := ih
      ⟨fun p hp => h.ne_nil p (List.mem_append_left _ hp),
        fun p hp => h.related p (List.mem_append_left _ hp)⟩
    have hmem : part ∈ parts ++ [part] := List.mem_append_right _ (List.mem_singleton_self part)
    rw [List.flatten_append, List.flatten_singleton, List.length_append, List.length_singleton]
    by_cases hother : ∀ x ∈ parts.flatten.getLast?, ∀ y ∈ part.head?, r x y = false
    · rw [List.splitBy_append hother,
        List.splitBy_of_isChain (h.ne_nil part hmem) (h.isChain hmem), List.length_append,
        List.length_singleton, Nat.add_right_cancel_iff, List.append_cancel_right_eq]
      exact ⟨Nat.add_le_add_right hle 1, heq⟩
    · push Not at hother
      obtain ⟨x, hx, y, hy, hjoins⟩ := hother
      have hhead : ∀ b ∈ part.head?, r x b = true := fun b hb => by
        rw [← Option.mem_unique hy hb]
        exact Bool.ne_false_iff.1 hjoins
      rw [length_splitBy_append (h.isChain hmem) hx hhead]
      exact ⟨Nat.le_succ_of_le hle, fun hlength => by omega⟩

end

/-! ## Blocks in their place -/

/-- **A block between what stands before and behind it**: its elements have the same answer, and
none of them has it with a neighbour of the block. -/
structure IsBlock {ε : Type} (same : α → α → Except ε Bool) (before block after : List α) :
    Prop where
  ne_nil : block ≠ []
  same_of_mem : ∀ a ∈ block, ∀ b ∈ block, same a b = .ok true
  before : ∀ a ∈ before.getLast?, ∀ b ∈ block, same a b = .ok false
  after : ∀ a ∈ after.head?, ∀ b ∈ block, same a b = .ok false

section

variable {r : α → α → Bool} {as block : List α} {before after : List (List α)}

/-- A block begins where its members cease to be related to what is before. -/
theorem not_related_before (hr : IsEquivalence r) (h : as.splitBy r = before ++ block :: after) :
    ∀ a ∈ before.flatten.getLast?, ∀ b ∈ block, r a b = false := by
  intro a ha b hb
  obtain ⟨-, hnil, -, hapart⟩ := List.splitBy_eq_iff.1 h
  rcases List.eq_nil_or_concat' before with rfl | ⟨init, former, rfl⟩
  · cases ha
  · have hformer : former ≠ [] := by
      rintro rfl
      simp at hnil
    rw [List.append_assoc, List.singleton_append] at hapart
    obtain ⟨_, hblock, hother⟩ := (List.isChain_append.1 hapart).2.1.rel
    have hmem : block ∈ as.splitBy r := by simp [h]
    obtain rfl : former.getLast hformer = a := by
      simpa [List.getLast?_append, List.getLast?_eq_some_getLast hformer] using ha
    rw [Bool.eq_false_iff] at hother ⊢
    intro hsame
    have hhead := hr.of_mem_splitBy hmem b hb _ (List.head_mem hblock)
    exact hother (hr.trans hsame hhead)

/-- It ends where they cease to be related to what is behind. -/
theorem not_related_after (hr : IsEquivalence r) (h : as.splitBy r = before ++ block :: after) :
    ∀ a ∈ after.flatten.head?, ∀ b ∈ block, r a b = false := by
  intro a ha b hb
  obtain ⟨-, hnil, -, hapart⟩ := List.splitBy_eq_iff.1 h
  cases after with
  | nil => cases ha
  | cons next rest =>
    have hnext : next ≠ [] := by
      rintro rfl
      simp at hnil
    obtain ⟨hblock, _, hother⟩ := (List.isChain_append.1 hapart).2.1.rel
    have hmem : block ∈ as.splitBy r := by simp [h]
    obtain rfl : next.head hnext = a := by
      simpa [List.head?_append, List.head?_eq_some_head hnext] using ha
    rw [Bool.eq_false_iff] at hother ⊢
    intro hsame
    have hlast := hr.of_mem_splitBy hmem _ (List.getLast_mem hblock) b hb
    exact hother (hr.trans hlast (hr.symm hsame))

/-- **Every block stands in its place.** -/
theorem IsEquivalence.isBlock {ε : Type} {same : α → α → Except ε Bool} (hr : IsEquivalence r)
    (hsame : ∀ a ∈ as, ∀ b ∈ as, same a b = .ok (r a b))
    (h : as.splitBy r = before ++ block :: after) :
    IsBlock same before.flatten block after.flatten := by
  have has : as = before.flatten ++ (block ++ after.flatten) := by
    rw [← List.flatten_splitBy r as, h, List.flatten_append, List.flatten_cons]
  have hblock {b : α} (hb : b ∈ block) : b ∈ as := by simp [has, hb]
  have hmem : block ∈ as.splitBy r := by simp [h]
  refine ⟨List.ne_nil_of_mem_splitBy hmem, fun a ha b hb => ?_,
    fun a ha b hb => ?_, fun a ha b hb => ?_⟩
  · rw [hsame a (hblock ha) b (hblock hb), hr.of_mem_splitBy hmem a ha b hb]
  · have hbefore := List.mem_of_mem_getLast? ha
    rw [hsame a (has ▸ List.mem_append_left _ hbefore) b (hblock hb),
      not_related_before hr h a ha b hb]
  · have hafter := List.mem_of_mem_head? ha
    rw [hsame a (by rw [has]; simp [hafter]) b (hblock hb), not_related_after hr h a ha b hb]

end

end QueryPlans
