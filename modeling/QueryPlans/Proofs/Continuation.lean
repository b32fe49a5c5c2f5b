import QueryPlans.Layout.Spec
import QueryPlans.Materializer
import QueryPlans.Proofs.Scalar.Interchange
import QueryPlans.Proofs.Text.Base64

/-!
# Proofs/Continuation — continuations come back from their text

The text of a continuation passes three layers: values as trees, trees as bytes, and bytes as
URL-safe text.  Each layer reads back what it wrote, and blanks around the text do not matter; so
a continuation with values decodes from its text exactly if its values are portable
(`decode_around_encode`).  The continuations that clients hold come from a materializer whose page
is full or from a text (`IsHandedOut`), and either has values.
-/

namespace QueryPlans

namespace Continuation

variable {c : Continuation}

/-! ## The layers -/

/-- The URL-safe text of a tree. -/
def textOf (j : Json) : String := String.ofList (Text.Base64.encode j.render.toUTF8.toList)

theorem toList_textOf (j : Json) : (textOf j).toList = Text.Base64.encode (Json.utf8 j.write) := by
  rw [textOf, Json.render, Json.toList_toUTF8, String.toList_ofList]

/-- The text of a tree consists of symbols. -/
theorem mem_alphabet_of_mem_textOf {j : Json} {ch : Char} (h : ch ∈ (textOf j).toList) :
    ch ∈ Text.Base64.alphabet := by
  rw [toList_textOf] at h
  exact Text.Base64.mem_alphabet_of_mem_encode h

/-- The text of a tree is not empty, so no blank around it can be taken for it. -/
theorem toList_textOf_ne_nil (j : Json) : (textOf j).toList ≠ [] := by
  obtain ⟨b, more, heq, -⟩ := Json.exists_write_eq j
  rw [toList_textOf, heq]
  exact Text.Base64.encode_ne_nil (List.cons_ne_nil b more)

/-- **Decoding takes the pairs that a tree lists**, whatever blanks surround its text. -/
theorem decode_around (j : Json) (before after : String)
    (hbefore : ∀ ch ∈ before.toList, Text.isBlank ch)
    (hafter : ∀ ch ∈ after.toList, Text.isBlank ch) :
    decode (before ++ textOf j ++ after) =
      match j.listOf? (Json.pairOf? Json.text? Scalar.ofJson?) with
      | none => .error .notValues
      | some [] => .error .empty
      | some values => .ok ⟨values⟩ := by
  have htrim : Text.trim (before ++ textOf j ++ after).toList = (textOf j).toList := by
    rw [String.toList_append, String.toList_append]
    exact Text.trim_around hbefore
      (fun ch hch => Text.isBlank_of_mem_alphabet (mem_alphabet_of_mem_textOf hch)) hafter
      (toList_textOf_ne_nil j)
  rw [decode, htrim, toList_textOf, Text.Base64.decode_encode_bytes]
  dsimp only
  rw [valuesOfBytes?, Json.ofBytes?_write]
  rfl

/-- The pairs of a continuation read back if their values are portable. -/
theorem listOf?_toJson (hfloat : ∀ value ∈ c.values, ¬ value.2.IsFloat) :
    c.toJson.listOf? (Json.pairOf? Json.text? Scalar.ofJson?) =
      if ∀ value ∈ c.values, value.2.IsPortable then some c.values else none := by
  refine Json.listOf?_map fun value hvalue => ?_
  obtain ⟨property, v⟩ := value
  have hscalar := Scalar.ofJson?_toJson (hfloat _ hvalue)
  change (do some (property, ← Scalar.ofJson? v.toJson)) = _
  rw [hscalar]
  split_ifs <;> rfl

/-- **Decoding the text of a continuation**, whatever blanks surround it. -/
theorem decode_around_encode (hne : c.values ≠ []) (hfloat : ∀ value ∈ c.values, ¬ value.2.IsFloat)
    (before after : String) (hbefore : ∀ ch ∈ before.toList, Text.isBlank ch)
    (hafter : ∀ ch ∈ after.toList, Text.isBlank ch) :
    decode (before ++ c.encode ++ after) =
      if ∀ value ∈ c.values, value.2.IsPortable then .ok c else .error .notValues := by
  have hdecode := decode_around c.toJson before after hbefore hafter
  rw [listOf?_toJson hfloat] at hdecode
  rw [encode, ← textOf, hdecode]
  split_ifs with hportable
  · obtain ⟨values⟩ := c
    obtain ⟨value, rest, rfl⟩ := List.exists_cons_of_ne_nil hne
    rfl
  · rfl

/-- **A continuation with portable values round-trips.**  Its text consists of URL-safe symbols, and
decoding the text gives the continuation back, also with blanks around it. -/
theorem round_trips {values : List (String × Scalar)} (hne : values ≠ [])
    (hportable : ∀ value ∈ values, value.2.IsPortable) {before after : String}
    (hbefore : ∀ ch ∈ before.toList, Text.isBlank ch)
    (hafter : ∀ ch ∈ after.toList, Text.isBlank ch) :
    (∀ ch ∈ (mk values).encode.toList, ch ∈ Text.Base64.alphabet) ∧
      decode (before ++ (mk values).encode ++ after) = .ok ⟨values⟩ := by
  refine ⟨fun ch => mem_alphabet_of_mem_textOf, ?_⟩
  have hfloat : ∀ value ∈ values, ¬ value.2.IsFloat :=
    fun value hvalue => (hportable value hvalue).not_isFloat
  rw [decode_around_encode hne hfloat before after hbefore hafter, if_pos hportable]

/-- The name needs escapes and holds a character beyond the basic plane; the instant is the latest
that a number within 64 bits names. -/
theorem round_trips_latest :
    let values : List (String × Scalar) :=
      [("\"\n😀", .null), ("At", .dateTime ⟨0xffffffffffffffff, by decide⟩)]
    (∀ ch ∈ (mk values).encode.toList, ch ∈ Text.Base64.alphabet) ∧
      decode (" \t" ++ (mk values).encode ++ "\n") = .ok ⟨values⟩ :=
  round_trips (by simp) (by decide) (List.all_eq_true.1 (by decide))
    (List.all_eq_true.1 (by decide))

end Continuation

/-! ## Where continuations come from -/

namespace Materializer

/-- The states of a materializer between calls. -/
inductive Reaches (m : Materializer) : Materializer → Prop
  | refl : Reaches m m
  | withPageSize {m' : Materializer} (h : Reaches m m') (size : Nat) :
    Reaches m (m'.withPageSize size)
  | next {m' : Materializer} (h : Reaches m m') : Reaches m m'.next.2
  | cancel {m' : Materializer} (h : Reaches m m') : Reaches m m'.cancel

/-- A materializer that has issued no continuation, or one with values. -/
def IssuesValues (m : Materializer) : Prop := ∀ c ∈ m.continuation, c.values ≠ []

variable {m : Materializer}

theorem continuation_firstRow (m : Materializer) : m.firstRow.2.continuation = m.continuation := by
  rw [firstRow]
  cases m.lookahead <;> rfl

theorem continuation_readGroup (m : Materializer) (first : Row) :
    (m.readGroup first).2.continuation = m.continuation := by
  rw [readGroup]
  dsimp only
  split <;> rfl

/-- The entry that fills the page issues a continuation only if there are values. -/
theorem IssuesValues.deliver (h : m.IssuesValues) (group : RowGroup) :
    (m.deliver group).2.IssuesValues := by
  rw [Materializer.deliver]
  split
  · exact h
  · dsimp only
    split
    · split
      · exact h
      · next values _ _ =>
        intro c hc
        change c ∈ (if values.isEmpty then none else some (Continuation.mk values)) at hc
        split_ifs at hc with hempty
        · cases hc
        · obtain rfl := Option.some.inj hc
          simpa using hempty
    · exact h

/-- **A call issues no continuation without values**: one is issued where there are columns for it.
-/
theorem IssuesValues.advance (h : m.IssuesValues) : m.advance.2.IssuesValues := by
  rw [Materializer.advance]
  split
  · exact h
  · split
    · exact h
    · split
      · exact h
      · have hfirst : m.firstRow.2.IssuesValues := by
          rw [IssuesValues, continuation_firstRow]
          exact h
        split
        · next e m' heq =>
          rw [heq] at hfirst
          exact hfirst
        · next m' heq =>
          rw [heq] at hfirst
          exact hfirst
        · next first m' heq =>
          rw [heq] at hfirst
          have hgroup : (m'.readGroup first).2.IssuesValues := by
            rw [IssuesValues, continuation_readGroup]
            exact hfirst
          split
          · next e m'' heq =>
            rw [heq] at hgroup
            exact hgroup
          · next group m'' heq =>
            rw [heq] at hgroup
            exact hgroup.deliver group

theorem IssuesValues.next (h : m.IssuesValues) : m.next.2.IssuesValues := by
  have hadvance := h.advance
  rw [Materializer.next]
  split
  · next e m' heq =>
    rw [heq] at hadvance
    exact hadvance
  · next entry m' heq =>
    rw [heq] at hadvance
    exact hadvance

/-- **What a materializer issues has values**, whatever it is asked. -/
theorem Reaches.issuesValues {m' : Materializer} (h : m.Reaches m') (hm : m.IssuesValues) :
    m'.IssuesValues := by
  induction h with
  | refl => exact hm
  | withPageSize _ _ ih => exact ih
  | next _ ih => exact ih.next
  | cancel _ ih => exact ih

theorem issuesValues_ofCursor (layout : Layout) (cursor : Cursor) (limit : Nat) :
    (ofCursor layout cursor limit).IssuesValues := nofun

end Materializer

namespace Continuation

variable {c : Continuation}

/-- **The continuations that clients hold**: one that a materializer of a valid layout has issued
for its page, or one that a text was decoded to. -/
inductive IsHandedOut : Continuation → Prop
  | issued {c : Continuation} {spec : LevelSpec} {layout : Layout} {cursor : Cursor} {limit : Nat}
    {m : Materializer} (hlayout : spec.layout = .ok layout)
    (hreaches : (Materializer.ofCursor layout cursor limit).Reaches m)
    (hissued : m.continuation = some c) : IsHandedOut c
  | decoded {c : Continuation} {text : String} (hdecode : decode text = .ok c) : IsHandedOut c

/-- Decoding refuses a continuation without values. -/
theorem values_ne_nil_of_decode {text : String} (h : decode text = .ok c) : c.values ≠ [] := by
  rw [decode] at h
  split at h
  · cases h
  · split at h
    · cases h
    · cases h
    · next values hne _ =>
      cases h
      rintro rfl
      exact hne rfl

/-- Clients hold continuations that have values. -/
theorem IsHandedOut.values_ne_nil (h : IsHandedOut c) : c.values ≠ [] := by
  cases h with
  | issued _ hreaches hissued =>
    exact hreaches.issuesValues (Materializer.issuesValues_ofCursor _ _ _) c hissued
  | decoded hdecode => exact values_ne_nil_of_decode hdecode

/-- **A continuation that was handed out can be handed in again exactly if its instants lie within
64 bits**, signed or not; with any other it is refused as malformed.  Doubles are left aside. -/
theorem decode_encode_of_isHandedOut (h : IsHandedOut c)
    (hfloat : ∀ value ∈ c.values, ¬ value.2.IsFloat) :
    decode c.encode =
      if ∀ value ∈ c.values, value.2.IsPortable then .ok c else .error .notValues := by
  have hdecode := decode_around_encode h.values_ne_nil hfloat "" "" (by simp) (by simp)
  rwa [String.empty_append, String.append_empty] at hdecode

end Continuation

/-! ## Visits, resumed by their instant -/

/-- Visits have an instant, by which a page continues. -/
def LevelSpec.visits : LevelSpec :=
  ((empty.key "Id" 0).property "At" 1).continueBy ⟨"At", ["At"], 1⟩

/-- Visits by `Id`, continued at the time of the last one. -/
def Layout.visits : Layout where
  root := .mk ⟨0, .root, [⟨"Id", 0⟩, ⟨"At", 1⟩], [0], [0, 1], [0, 1], none, 0⟩ []
  continuation := [⟨"At", ["At"], 1⟩]
  width := 2

namespace Continuation

/-- The continuation behind a visit. -/
def afterVisit (t : Instant) : Continuation := ⟨[("At", .dateTime t)]⟩

/-- A page of one visit issues it. -/
theorem isHandedOut_afterVisit (t : Instant) : IsHandedOut (afterVisit t) := by
  let cursor : Cursor := .ofDeliveries [.row ⟨[.int 1, .dateTime t]⟩]
  let m : Materializer := .ofCursor .visits cursor 1
  have hlayout : LevelSpec.visits.layout = .ok .visits := rfl
  have hreaches : m.Reaches (m.withPageSize 1).next.2 := .next (.withPageSize .refl 1)
  exact .issued hlayout hreaches rfl

theorem not_isFloat_afterVisit (t : Instant) :
    ∀ value ∈ (afterVisit t).values, ¬ value.2.IsFloat := by
  rintro value hvalue
  obtain rfl := List.mem_singleton.1 hvalue
  exact id

/-- The beginning of 2024 is handed in again. -/
theorem decode_encode_of_isHandedOut_newYear :
    decode (afterVisit ⟨1704067200000000000, by decide⟩).encode =
      .ok (afterVisit ⟨1704067200000000000, by decide⟩) := by
  have hdecode := decode_encode_of_isHandedOut
    (isHandedOut_afterVisit ⟨1704067200000000000, by decide⟩) (not_isFloat_afterVisit _)
  rwa [if_pos (by decide)] at hdecode

/-- **The first instant beyond 64 bits** is issued behind a page and is taken from a text that
writes it in quotes, but the text that is written for it is refused. -/
theorem afterVisit_not_resumed :
    let t : Instant := ⟨0x10000000000000000, by decide⟩
    let quoted : Json := .array [.array [.text "At",
      .record [("t", .text "DateTime"), ("v", .text "18446744073709551616")]]]
    IsHandedOut (afterVisit t) ∧ decode (textOf quoted) = .ok (afterVisit t) ∧
      (∀ value ∈ (afterVisit t).values, ¬ value.2.IsFloat) ∧
      decode (afterVisit t).encode = .error .notValues := by
  intro t quoted
  have hne : (afterVisit t).values ≠ [] := List.cons_ne_nil _ _
  have hquoted := decode_around quoted "" "" (by simp) (by simp)
  have hencoded := decode_around_encode hne (not_isFloat_afterVisit t) "" "" (by simp) (by simp)
  rw [String.empty_append, String.append_empty] at hquoted hencoded
  refine ⟨isHandedOut_afterVisit t, hquoted.trans rfl, not_isFloat_afterVisit t, ?_⟩
  rw [hencoded, if_neg (by decide)]

end Continuation

end QueryPlans
