import Mathlib.Data.List.Basic
import QueryPlans.Text.Base64
import QueryPlans.Text.Blank

/-!
# Proofs/Text/Base64 — bytes come back from their URL-safe text

The symbols of a group are the sextets of one number, and the bytes of the group are read off the
number that the sextets write.  Groups follow one another, so decoding undoes encoding
(`decode_encode_bytes`).  The text consists of symbols of the alphabet; none of these is blank, so a
text is told from the blanks around it (`trim_around`).
-/

namespace QueryPlans.Text

namespace Base64

/-- The URL-safe symbols in the order of their sextets. -/
def alphabet : List Char :=
  "ABCDEFGHIJKLMNOPQRSTUVWXYZabcdefghijklmnopqrstuvwxyz0123456789-_".toList

theorem symbol_mem_alphabet (n : Sextet) : symbol n ∈ alphabet := by
  revert n; decide

/-! ## Groups -/

theorem val_sextetAt (n shift : Nat) : (sextetAt n shift).val = (n >>> shift) % 64 := rfl

/-- A byte is cut out of its group. -/
theorem byteAt_eq {n shift : Nat} {b : UInt8} (h : (n >>> shift) % 256 = b.toNat) :
    byteAt n shift = b := by
  rw [byteAt, ← UInt8.toNat_inj, ← h]
  exact UInt8.toNat_ofNat'

/-- The sextets of a number write it. -/
theorem sextets_two {n : Nat} (h : n < 0x1000) :
    (sextetAt n 6).val * 64 + (sextetAt n 0).val = n := by
  rw [val_sextetAt, val_sextetAt]
  omega

/-- Three symbols make up eighteen bits. -/
theorem sextets_three {n : Nat} (h : n < 0x40000) :
    ((sextetAt n 12).val * 64 + (sextetAt n 6).val) * 64 + (sextetAt n 0).val = n := by
  rw [val_sextetAt, val_sextetAt, val_sextetAt]
  omega

/-- Four symbols make up twenty-four bits. -/
theorem sextets_four {n : Nat} (h : n < 0x1000000) :
    (((sextetAt n 18).val * 64 + (sextetAt n 12).val) * 64 + (sextetAt n 6).val) * 64 +
      (sextetAt n 0).val = n := by
  rw [val_sextetAt, val_sextetAt, val_sextetAt, val_sextetAt]
  omega

/-! ## Texts -/

/-- **Decoding undoes encoding.** -/
theorem decode_encode_bytes (bytes : List UInt8) : decode (encode bytes) = some bytes := by
  induction bytes using encode.induct with
  | case1 => rfl
  | case2 a =>
    have ha := a.toNat_lt
    -- The group is named, or the arithmetic would be done on the sum that it is.
    obtain ⟨n, hn⟩ : ∃ n, n = a.toNat * 16 := ⟨_, rfl⟩
    have hbyte : byteAt n 4 = a := byteAt_eq (by omega)
    simp only [encode, decode, sextet?_symbol, Option.bind_eq_bind, Option.bind_some]
    rw [← hn, sextets_two (by omega), if_pos (by omega), hbyte]
  | case3 a b =>
    have ha := a.toNat_lt
    have hb := b.toNat_lt
    obtain ⟨n, hn⟩ : ∃ n, n = (a.toNat * 256 + b.toNat) * 4 := ⟨_, rfl⟩
    have hfirst : byteAt n 10 = a := byteAt_eq (by omega)
    have hsecond : byteAt n 2 = b := byteAt_eq (by omega)
    simp only [encode, decode, sextet?_symbol, Option.bind_eq_bind, Option.bind_some]
    rw [← hn, sextets_three (by omega), if_pos (by omega), hfirst, hsecond]
  | case4 a b c rest ih =>
    have ha := a.toNat_lt
    have hb := b.toNat_lt
    have hc := c.toNat_lt
    obtain ⟨n, hn⟩ : ∃ n, n = (a.toNat * 256 + b.toNat) * 256 + c.toNat := ⟨_, rfl⟩
    have hfirst : byteAt n 16 = a := byteAt_eq (by omega)
    have hsecond : byteAt n 8 = b := byteAt_eq (by omega)
    have hthird : byteAt n 0 = c := byteAt_eq (by omega)
    simp only [encode, decode, sextet?_symbol, ih, Option.bind_eq_bind, Option.bind_some]
    rw [← hn, sextets_four (by omega), hfirst, hsecond, hthird]

theorem encode_ne_nil {bytes : List UInt8} (h : bytes ≠ []) : encode bytes ≠ [] := by
  cases bytes using encode.induct with
  | case1 => exact absurd rfl h
  | case2 => exact List.cons_ne_nil _ _
  | case3 => exact List.cons_ne_nil _ _
  | case4 => exact List.cons_ne_nil _ _

/-- The text of bytes consists of symbols. -/
theorem exists_symbol_of_mem_encode {bytes : List UInt8} {c : Char} (h : c ∈ encode bytes) :
    ∃ n, c = symbol n := by
  induction bytes using encode.induct with
  | case1 => cases h
  | case2 a =>
    simp only [encode, List.mem_cons, List.not_mem_nil, or_false] at h
    rcases h with rfl | rfl <;> exact ⟨_, rfl⟩
  | case3 a b =>
    simp only [encode, List.mem_cons, List.not_mem_nil, or_false] at h
    rcases h with rfl | rfl | rfl <;> exact ⟨_, rfl⟩
  | case4 a b c rest ih =>
    simp only [encode, List.mem_cons] at h
    rcases h with rfl | rfl | rfl | rfl | h
    · exact ⟨_, rfl⟩
    · exact ⟨_, rfl⟩
    · exact ⟨_, rfl⟩
    · exact ⟨_, rfl⟩
    · exact ih h

theorem mem_alphabet_of_mem_encode {bytes : List UInt8} {c : Char} (h : c ∈ encode bytes) :
    c ∈ alphabet := by
  obtain ⟨n, rfl⟩ := exists_symbol_of_mem_encode h
  exact symbol_mem_alphabet n

end Base64

/-! ## Blanks around a text -/

/-- No symbol is a blank. -/
theorem isBlank_of_mem_alphabet {c : Char} (h : c ∈ Base64.alphabet) : isBlank c = false := by
  have hall : (Base64.alphabet.all fun c => !isBlank c) = true := by decide
  simpa using List.all_eq_true.1 hall c h

/-- Blanks in front of a text without blanks are passed. -/
theorem dropWhile_isBlank_append {blanks text rest : List Char} (hblanks : ∀ c ∈ blanks, isBlank c)
    (htext : ∀ c ∈ text, isBlank c = false) (hne : text ≠ []) :
    (blanks ++ (text ++ rest)).dropWhile isBlank = text ++ rest := by
  rw [List.dropWhile_append_of_pos hblanks]
  obtain ⟨c, cs, rfl⟩ := List.exists_cons_of_ne_nil hne
  rw [List.cons_append, List.dropWhile_cons_of_neg]
  simp [htext c List.mem_cons_self]

/-- **A text without blanks is told from the blanks around it.** -/
theorem trim_around {before text after : List Char} (hbefore : ∀ c ∈ before, isBlank c)
    (htext : ∀ c ∈ text, isBlank c = false) (hafter : ∀ c ∈ after, isBlank c) (hne : text ≠ []) :
    trim (before ++ text ++ after) = text := by
  have hfront : (before ++ (text ++ after)).dropWhile isBlank = text ++ after :=
    dropWhile_isBlank_append hbefore htext hne
  have hback : (after.reverse ++ (text.reverse ++ [])).dropWhile isBlank = text.reverse ++ [] :=
    dropWhile_isBlank_append (by simpa using hafter) (by simpa using htext) (by simpa using hne)
  rw [trim, List.append_assoc, hfront, List.reverse_append, ← List.append_nil text.reverse, hback,
    List.append_nil, List.reverse_reverse]

end QueryPlans.Text
