import QueryPlans.Proofs.Json.Text

/-!
# Proofs/Json/Numeral — numerals come back from their text

A numeral is written part by part, and each part is read up to a byte that cannot continue it.  What
follows a numeral in a tree never does (`Stops`), so every numeral reads back as it was written
(`readNumeral_render`).  The numeral of an integer names the integer again as long as it lies within
64 bits, signed or not (`integer?_ofInt`).
-/

namespace QueryPlans.Json

/-! ## Digits -/

theorem val_lowestDigit (n : Nat) : (lowestDigit n).val = n % 10 := rfl

theorem natOfDigits_concat (before : Nat) (digits : List Digit) (d : Digit) :
    natOfDigits before (digits ++ [d]) = 10 * natOfDigits before digits + d.val := by
  rw [natOfDigits, List.foldl_append]
  rfl

/-- The digits of a number write it. -/
theorem natOfDigits_digitsOfNat (n : Nat) : natOfDigits 0 (digitsOfNat n) = n := by
  induction n using digitsOfNat.induct with
  | case1 n hlt =>
    rw [digitsOfNat, if_pos hlt]
    simp only [natOfDigits, List.foldl_cons, List.foldl_nil, val_lowestDigit]
    omega
  | case2 n hge ih =>
    rw [digitsOfNat, if_neg hge, natOfDigits_concat, ih, val_lowestDigit]
    omega

theorem digitsOfNat_ne_nil (n : Nat) : digitsOfNat n ≠ [] := by
  rw [digitsOfNat]
  split_ifs <;> simp

/-- Only zero is written with a zero in front. -/
theorem exists_digitsOfNat_eq_cons {n : Nat} (h : 0 < n) :
    ∃ d digits, digitsOfNat n = d :: digits ∧ d.val ≠ 0 := by
  induction n using digitsOfNat.induct with
  | case1 n hlt =>
    refine ⟨lowestDigit n, [], by rw [digitsOfNat, if_pos hlt], ?_⟩
    rw [val_lowestDigit]
    omega
  | case2 n hge ih =>
    obtain ⟨d, digits, heq, hd⟩ := ih (by omega)
    exact ⟨d, digits ++ [lowestDigit n], by rw [digitsOfNat, if_neg hge, heq, List.cons_append], hd⟩

/-- The bytes of digits. -/
def digitBytes (digits : List Digit) : List UInt8 := digits.map fun d => byteOf (digitChar d)

theorem utf8_map_digitChar (digits : List Digit) :
    utf8 (digits.map digitChar) = digitBytes digits := by
  have hascii : ∀ d : Digit, (digitChar d).toNat ≤ 127 := by decide
  rw [utf8_of_ascii (by simpa using fun d _ => hascii d), List.map_map]
  rfl

theorem digitOfByte?_digitChar (d : Digit) : digitOfByte? (byteOf (digitChar d)) = some d := by
  revert d; decide

/-- No digit is read where none begins. -/
theorem readDigits_of_head {bytes : List UInt8} (h : ∀ b ∈ bytes.head?, digitOfByte? b = none) :
    readDigits bytes = ([], bytes) := by
  cases bytes with
  | nil => rfl
  | cons b rest => rw [readDigits, h b rfl]

/-- Digits are read up to what does not start with one. -/
theorem readDigits_append {rest : List UInt8} (h : readDigits rest = ([], rest))
    (digits : List Digit) : readDigits (digitBytes digits ++ rest) = (digits, rest) := by
  induction digits with
  | nil => exact h
  | cons d digits ih =>
    rw [digitBytes, List.map_cons, List.cons_append, readDigits, digitOfByte?_digitChar,
      ← digitBytes, ih]

/-! ## Parts of a numeral -/

/-- **A natural number comes back from its digits**, whatever follows that is no digit. -/
theorem readWhole_append {rest : List UInt8} (h : readDigits rest = ([], rest)) (n : Nat) :
    readWhole (digitBytes (digitsOfNat n) ++ rest) = some (n, rest) := by
  have hvalue := natOfDigits_digitsOfNat n
  rw [readWhole, readDigits_append h]
  rcases Nat.eq_zero_or_pos n with rfl | hpos
  · rw [digitsOfNat, if_pos (by decide)]
    rfl
  · obtain ⟨d, digits, heq, hd⟩ := exists_digitsOfNat_eq_cons hpos
    rw [heq] at hvalue ⊢
    dsimp only
    rw [if_neg (fun hzero => hd hzero.1), hvalue]

namespace Numeral

/-- The fraction of a numeral, with its point if it has digits. -/
def fractionText (digits : List Digit) : List Char :=
  if digits.isEmpty then [] else '.' :: digits.map digitChar

/-- The exponent of a numeral, which is written with its sign. -/
def exponentText : Option Int → List Char
  | none => []
  | some e => 'e' :: (if e < 0 then '-' else '+') :: (digitsOfNat e.natAbs).map digitChar

theorem render_eq (n : Numeral) :
    n.render = (if n.negative then ['-'] else []) ++ (digitsOfNat n.whole).map digitChar ++
      fractionText n.fraction ++ exponentText n.exponent := by
  rw [render]
  cases n.exponent <;> rfl

end Numeral

open Numeral

/-- Bytes that do not continue a numeral. -/
def Stops (rest : List UInt8) : Prop :=
  ∀ b ∈ rest.head?, digitOfByte? b = none ∧ b ≠ byteOf '.' ∧ b ≠ byteOf 'e' ∧ b ≠ byteOf 'E'

theorem Stops.readDigits {rest : List UInt8} (h : Stops rest) : readDigits rest = ([], rest) :=
  readDigits_of_head fun b hb => (h b hb).1

/-- An exponent is read by its sign and its digits. -/
theorem readExponent_signed {rest : List UInt8} (h : Stops rest) (negative : Bool) (n : Nat) :
    readExponent (byteOf 'e' :: byteOf (if negative then '-' else '+') ::
      (digitBytes (digitsOfNat n) ++ rest)) =
      some (some (if negative then -(n : Int) else n), rest) := by
  have hvalue := natOfDigits_digitsOfNat n
  have hdigits := readDigits_append h.readDigits (digitsOfNat n)
  obtain ⟨d, digits, heq⟩ := List.exists_cons_of_ne_nil (digitsOfNat_ne_nil n)
  rw [heq] at hvalue hdigits ⊢
  rw [readExponent.eq_def]
  cases negative with
  | false =>
    have hminus : (byteOf '+' == byteOf '-') = false := rfl
    have hplus : (byteOf '+' == byteOf '+') = true := rfl
    have he : (byteOf 'e' == byteOf 'e' || byteOf 'e' == byteOf 'E') = true := rfl
    simp only [Bool.false_eq_true, if_false, hminus, hplus, he, if_true, hdigits, hvalue]
  | true =>
    have hminus : (byteOf '-' == byteOf '-') = true := rfl
    have he : (byteOf 'e' == byteOf 'e' || byteOf 'e' == byteOf 'E') = true := rfl
    simp only [hminus, he, if_true, hdigits, hvalue]

/-- An exponent comes back with its sign. -/
theorem readExponent_append {rest : List UInt8} (h : Stops rest) (exponent : Option Int) :
    readExponent (utf8 (exponentText exponent) ++ rest) = some (exponent, rest) := by
  cases exponent with
  | none =>
    cases rest with
    | nil => rfl
    | cons b rest =>
      obtain ⟨-, -, he, hE⟩ := h b rfl
      have hnone : (b == byteOf 'e' || b == byteOf 'E') = false := by simp [he, hE]
      rw [exponentText, utf8_nil, List.nil_append, readExponent.eq_def]
      dsimp only
      rw [hnone]
      rfl
  | some e =>
    have hsigned := readExponent_signed h (decide (e < 0)) e.natAbs
    have hsign : (if decide (e < 0) then '-' else '+').toNat ≤ 127 := by split_ifs <;> decide
    have hvalue : (if decide (e < 0) then -(e.natAbs : Int) else e.natAbs) = e := by
      split_ifs with hneg
      · have := of_decide_eq_true hneg
        omega
      · have := of_decide_eq_false (Bool.not_eq_true _ ▸ hneg)
        omega
    rw [hvalue] at hsigned
    rw [exponentText, utf8_ascii (by decide), utf8_ascii (by simpa using hsign), utf8_map_digitChar]
    simpa using hsigned

/-- What starts with an exponent or stops a numeral continues neither digits nor a fraction. -/
theorem head_exponentText {rest : List UInt8} (h : Stops rest) (exponent : Option Int) :
    ∀ b ∈ (utf8 (exponentText exponent) ++ rest).head?, digitOfByte? b = none ∧ b ≠ byteOf '.' := by
  cases exponent with
  | none => exact fun b hb => ⟨(h b hb).1, (h b hb).2.1⟩
  | some e =>
    rw [exponentText, utf8_ascii (by decide), List.cons_append, List.head?_cons]
    rintro b ⟨⟩
    exact ⟨by decide, by decide⟩

/-- A fraction comes back with all its digits, zeros at the end included. -/
theorem readFraction_append {rest : List UInt8}
    (h : ∀ b ∈ rest.head?, digitOfByte? b = none ∧ b ≠ byteOf '.') (digits : List Digit) :
    readFraction (utf8 (fractionText digits) ++ rest) = some (digits, rest) := by
  cases digits with
  | nil =>
    cases rest with
    | nil => rfl
    | cons b rest =>
      change readFraction (b :: rest) = _
      rw [readFraction.eq_def]
      dsimp only
      rw [if_neg (by simpa using (h b rfl).2)]
  | cons d digits =>
    have hdigits := readDigits_append (readDigits_of_head fun b hb => (h b hb).1) (d :: digits)
    rw [fractionText, if_neg (by simp), utf8_ascii (by decide), utf8_map_digitChar,
      List.cons_append, readFraction.eq_def]
    dsimp only
    rw [if_pos (by decide), hdigits]

theorem head_fractionText {rest : List UInt8} (h : ∀ b ∈ rest.head?, digitOfByte? b = none)
    (digits : List Digit) :
    ∀ b ∈ (utf8 (fractionText digits) ++ rest).head?, digitOfByte? b = none := by
  cases digits with
  | nil => exact h
  | cons d digits =>
    rw [fractionText, if_neg (by simp), utf8_ascii (by decide), List.cons_append, List.head?_cons]
    rintro b ⟨⟩
    decide

/-! ## Numerals -/

/-- **A numeral reads back from its text.** -/
theorem readNumeral_render {rest : List UInt8} (h : Stops rest) (n : Numeral) :
    readNumeral (utf8 n.render ++ rest) = some (n, rest) := by
  have hexponent := readExponent_append h n.exponent
  have hfraction := readFraction_append (head_exponentText h n.exponent) n.fraction
  have hwhole := readWhole_append (readDigits_of_head (head_fractionText
    (fun b hb => (head_exponentText h n.exponent b hb).1) n.fraction)) n.whole
  obtain ⟨d, digits, heq⟩ := List.exists_cons_of_ne_nil (digitsOfNat_ne_nil n.whole)
  have hminus : ∀ d : Digit, (byteOf (digitChar d) == byteOf '-') = false := by decide
  rw [render_eq, utf8_append, utf8_append, utf8_append, utf8_map_digitChar]
  simp only [List.append_assoc]
  -- The first byte is the sign or the first digit of the whole part, which is no sign.
  cases hnegative : n.negative with
  | true =>
    rw [if_pos rfl, utf8_ascii (by decide), utf8_nil, List.cons_append, List.nil_append,
      readNumeral]
    dsimp only
    rw [if_pos (by decide)]
    simp only [hwhole, hfraction, hexponent, Option.bind_eq_bind, Option.bind_some]
    rw [← hnegative]
  | false =>
    rw [heq, digitBytes, List.map_cons, List.cons_append] at hwhole ⊢
    rw [if_neg (by decide), utf8_nil, List.nil_append, readNumeral]
    dsimp only
    rw [hminus, if_neg (by decide)]
    simp only [hwhole, hfraction, hexponent, Option.bind_eq_bind, Option.bind_some]
    rw [← hnegative]

/-- An integer within 64 bits, signed or not. -/
def IsWord (n : Int) : Prop := -0x8000000000000000 ≤ n ∧ n < 0x10000000000000000

instance (n : Int) : Decidable (IsWord n) := inferInstanceAs (Decidable (_ ∧ _))

/-- **The numeral of an integer** names it within 64 bits, signed or not. -/
theorem integer?_ofInt (n : Int) :
    (Numeral.ofInt n).integer? = if IsWord n then some n else none := by
  have hsize : UInt64.size = 0x10000000000000000 := rfl
  rw [Numeral.integer?, Numeral.ofInt, if_pos (by rfl), hsize]
  dsimp only
  by_cases hneg : n < 0
  · rw [if_pos (by simpa using hneg)]
    by_cases hlow : -0x8000000000000000 ≤ n
    · rw [if_pos (by simp; omega), if_pos ⟨hlow, by omega⟩]
      congr 1
      omega
    · rw [if_neg (by simp; omega), if_neg fun hword => hlow hword.1]
  · rw [if_neg (by simpa using hneg)]
    by_cases hhigh : n < 0x10000000000000000
    · rw [if_pos (by omega), if_pos ⟨by omega, hhigh⟩]
      congr 1
      omega
    · rw [if_neg (by omega), if_neg fun hword => hhigh hword.2]

end QueryPlans.Json
