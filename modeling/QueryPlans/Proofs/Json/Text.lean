import Mathlib.Data.List.Basic
import QueryPlans.Json.Reader
import QueryPlans.Json.Writer

/-!
# Proofs/Json/Text — texts come back from their literals

The writer makes characters and the reader takes bytes, so what is written is looked at as the bytes
of UTF-8 (`utf8`).  A character is escaped, or it is an ASCII character that means itself, or its
bytes all lie beyond ASCII and none of them ends the literal; either way the reader collects pieces
that stand for the bytes of the character (`escapeChar_standsFor`).  Hence a literal reads back as
its text, and one that names no text as none (`readText_quote`).
-/

namespace QueryPlans.Json

/-! ## Bytes of texts -/

/-- The bytes of characters. -/
def utf8 (cs : List Char) : List UInt8 := cs.flatMap String.utf8EncodeChar

@[simp] theorem utf8_nil : utf8 [] = [] := rfl

theorem utf8_cons (c : Char) (cs : List Char) :
    utf8 (c :: cs) = String.utf8EncodeChar c ++ utf8 cs := rfl

@[simp] theorem utf8_append (cs ds : List Char) : utf8 (cs ++ ds) = utf8 cs ++ utf8 ds :=
  List.flatMap_append

theorem utf8EncodeChar_ascii {c : Char} (h : c.toNat ≤ 127) :
    String.utf8EncodeChar c = [byteOf c] := if_pos h

/-- ASCII characters are bytes. -/
theorem utf8_ascii {c : Char} (h : c.toNat ≤ 127) (cs : List Char) :
    utf8 (c :: cs) = byteOf c :: utf8 cs := by
  rw [utf8_cons, utf8EncodeChar_ascii h, List.singleton_append]

theorem utf8_of_ascii {cs : List Char} (h : ∀ c ∈ cs, c.toNat ≤ 127) : utf8 cs = cs.map byteOf := by
  induction cs with
  | nil => rfl
  | cons c cs ih =>
    rw [utf8_ascii (h c List.mem_cons_self), ih fun d hd => h d (List.mem_cons_of_mem c hd),
      List.map_cons]

/-- The bytes of other characters lie beyond ASCII. -/
theorem le_of_mem_utf8EncodeChar {c : Char} (h : ¬ c.toNat ≤ 127) {b : UInt8}
    (hb : b ∈ String.utf8EncodeChar c) : 128 ≤ b.toNat := by
  have hc : ¬ c.val.toNat ≤ 127 := h
  rw [String.utf8EncodeChar, if_neg hc] at hb
  split_ifs at hb <;> simp only [List.mem_cons, List.not_mem_nil, or_false] at hb
  · rcases hb with rfl | rfl <;> rw [UInt8.toNat_ofNat'] <;> omega
  · rcases hb with rfl | rfl | rfl <;> rw [UInt8.toNat_ofNat'] <;> omega
  · rcases hb with rfl | rfl | rfl | rfl <;> rw [UInt8.toNat_ofNat'] <;> omega

/-- The bytes that are still to be listed, behind those that were. -/
theorem toList_loop_eq (bytes : ByteArray) (i : Nat) (before : List UInt8) :
    ByteArray.toList.loop bytes i before = before.reverse ++ bytes.data.toList.drop i := by
  induction i, before using ByteArray.toList.loop.induct bytes with
  | case1 i before hlt ih =>
    have hi : i < bytes.data.toList.length := by simpa using hlt
    have hget : bytes.get! i = bytes.data.toList[i] := by
      simp only [ByteArray.get!, Array.getElem_toList]
      exact getElem!_pos bytes.data i (by simpa using hlt)
    rw [ByteArray.toList.loop, if_pos hlt, ih, List.drop_eq_getElem_cons hi, hget]
    simp
  | case2 i before hge =>
    rw [ByteArray.toList.loop, if_neg hge, List.drop_eq_nil_of_le, List.append_nil]
    simpa using Nat.le_of_not_lt hge

/-- **The bytes of a text** are those of its characters. -/
theorem toList_toUTF8 (cs : List Char) : (String.ofList cs).toUTF8.toList = utf8 cs := by
  have hdata : (String.ofList cs).toUTF8.data = (utf8 cs).toArray := List.data_toByteArray
  rw [ByteArray.toList, toList_loop_eq, hdata]
  rfl

/-- Bytes of characters are a text. -/
theorem fromUTF8?_utf8 (s : String) : String.fromUTF8? ⟨(utf8 s.toList).toArray⟩ = some s := by
  have hdata : s.toByteArray.data = (utf8 s.toList).toArray := by
    conv_lhs => rw [← String.ofList_toList (s := s)]
    exact List.data_toByteArray
  have hbytes : (⟨(utf8 s.toList).toArray⟩ : ByteArray) = s.toByteArray := by rw [← hdata]
  rw [hbytes, String.fromUTF8?, dif_pos s.isValidUTF8]
  rfl

/-! ## Pieces of literals

What reading collects is stated in front of any tail, so that forms of characters can be put side by
side. -/

/-- Reading the bytes collects the pieces, whatever follows. -/
def Collects (bytes : List UInt8) (pieces : List TextPiece) : Prop :=
  ∀ tail, readPieces (bytes ++ tail) =
    (readPieces tail).map fun (more, rest) => (pieces ++ more, rest)

/-- The pieces stand for the bytes, whatever follows. -/
def StandFor (pieces : List TextPiece) (bytes : List UInt8) : Prop :=
  ∀ more, utf8? (pieces ++ more) = (utf8? more).map (bytes ++ ·)

/-- Pieces are collected one after the other. -/
theorem Collects.append {bytes bytes' : List UInt8} {pieces pieces' : List TextPiece}
    (h : Collects bytes pieces) (h' : Collects bytes' pieces') :
    Collects (bytes ++ bytes') (pieces ++ pieces') := by
  intro tail
  rw [List.append_assoc, h, h', Option.map_map]
  simp only [Function.comp_def, List.append_assoc]

/-- They stand for what each stands for. -/
theorem StandFor.append {pieces pieces' : List TextPiece} {bytes bytes' : List UInt8}
    (h : StandFor pieces bytes) (h' : StandFor pieces' bytes') :
    StandFor (pieces ++ pieces') (bytes ++ bytes') := by
  intro more
  rw [List.append_assoc, h, h', Option.map_map]
  simp only [Function.comp_def, List.append_assoc]

theorem Collects.nil : Collects [] [] := fun tail => by simp

theorem StandFor.nil : StandFor [] [] := fun more => by simp

theorem standFor_bytes (bytes : List UInt8) : StandFor (bytes.map .byte) bytes := by
  induction bytes with
  | nil => exact StandFor.nil
  | cons b bytes ih =>
    intro more
    rw [List.map_cons, List.cons_append, utf8?, ih, Option.map_map]
    rfl

/-- Bytes that neither end a literal nor start an escape mean themselves. -/
def IsPlain (b : UInt8) : Prop := b ≠ byteOf '"' ∧ ¬ b < 0x20 ∧ b ≠ byteOf '\\'

/-- Plain bytes are collected as they are. -/
theorem collects_plain {bytes : List UInt8} (h : ∀ b ∈ bytes, IsPlain b) :
    Collects bytes (bytes.map .byte) := by
  induction bytes with
  | nil => exact Collects.nil
  | cons b bytes ih =>
    intro tail
    obtain ⟨hquote, hcontrol, hescape⟩ := h b List.mem_cons_self
    have hrest := ih (fun b' hb' => h b' (List.mem_cons_of_mem b hb')) tail
    rw [List.cons_append, readPieces.eq_def]
    dsimp only
    rw [if_neg (by simpa using hquote), if_neg hcontrol, if_neg (by simpa using hescape), hrest]
    cases readPieces tail <;> rfl

/-- A letter that escapes a byte. -/
theorem collects_letter {e b : UInt8} (hu : (e == byteOf 'u') = false)
    (h : escapedByte? e = some b) : Collects [byteOf '\\', e] [.byte b] := by
  intro tail
  rw [List.cons_append, List.singleton_append, readPieces.eq_def]
  dsimp only
  rw [if_neg (by decide), if_neg (by decide), if_pos (by decide), hu, h]
  cases readPieces tail <;> rfl

theorem hexOfByte?_hexChar {n : Nat} (h : n < 16) : hexOfByte? (byteOf (hexChar n)) = some n := by
  revert n; decide

/-- A unit by its four digits. -/
theorem collects_code {h₁ h₂ h₃ h₄ : Char} {d₁ d₂ d₃ d₄ : Nat}
    (hd₁ : hexOfByte? (byteOf h₁) = some d₁) (hd₂ : hexOfByte? (byteOf h₂) = some d₂)
    (hd₃ : hexOfByte? (byteOf h₃) = some d₃) (hd₄ : hexOfByte? (byteOf h₄) = some d₄) :
    Collects (['\\', 'u', h₁, h₂, h₃, h₄].map byteOf)
      [.unit (16 * (16 * (16 * d₁ + d₂) + d₃) + d₄)] := by
  intro tail
  simp only [List.map_cons, List.map_nil, List.cons_append, List.nil_append]
  rw [readPieces.eq_def]
  dsimp only
  rw [if_neg (by decide), if_neg (by decide), if_pos (by decide), if_pos (by decide), hd₁, hd₂, hd₃,
    hd₄]
  simp only [Option.bind_eq_bind, Option.bind_some]
  cases readPieces tail <;> rfl

/-- A code that is no surrogate stands for its character. -/
theorem standFor_code {c : Char} (h : c.toNat < 0x20) : StandFor [.unit c.toNat] (utf8 [c]) := by
  intro more
  have hhigh : isHighSurrogate c.toNat = false := by simp [isHighSurrogate]; omega
  have hlow : isLowSurrogate c.toNat = false := by simp [isLowSurrogate]; omega
  rw [List.singleton_append, utf8?.eq_def]
  dsimp only
  rw [hhigh, hlow, Char.ofNat_toNat, utf8_cons, utf8_nil, List.append_nil]
  rfl

/-! ## Literals -/

/-- Bytes beyond ASCII are plain: an escape has none of them. -/
theorem isPlain_of_le {b : UInt8} (h : 128 ≤ b.toNat) : IsPlain b := by
  refine ⟨?_, ?_, ?_⟩
  · rintro rfl
    exact absurd h (by decide)
  · rw [UInt8.lt_iff_toNat_lt]
    exact Nat.not_lt.2 (Nat.le_trans (by decide) h)
  · rintro rfl
    exact absurd h (by decide)

/-- A character that is not escaped means itself. -/
theorem isPlain_of_mem {c : Char} (hquote : c ≠ '"') (hescape : c ≠ '\\')
    (hcontrol : ¬ c.toNat < 0x20) {b : UInt8} (hb : b ∈ String.utf8EncodeChar c) : IsPlain b := by
  by_cases hascii : c.toNat ≤ 127
  · rw [utf8EncodeChar_ascii hascii, List.mem_singleton] at hb
    subst hb
    have hbyte : (byteOf c).toNat = c.toNat := by
      rw [byteOf, Nat.toUInt8_eq, UInt8.toNat_ofNat']
      omega
    have hne : ∀ d : Char, d.toNat ≤ 127 → c ≠ d → byteOf c ≠ byteOf d := by
      intro d hd hcd h
      refine hcd (Char.toNat_inj.1 ?_)
      rw [← hbyte, h, byteOf, Nat.toUInt8_eq, UInt8.toNat_ofNat']
      omega
    exact ⟨hne _ (by decide) hquote, by rw [UInt8.lt_iff_toNat_lt, hbyte]; exact hcontrol,
      hne _ (by decide) hescape⟩
  · exact isPlain_of_le (le_of_mem_utf8EncodeChar hascii hb)

/-- A one-letter escape stands for the character whose byte it escapes. -/
theorem letter_standsFor {e c : Char} {b : UInt8} (he : e.toNat ≤ 127)
    (hu : (byteOf e == byteOf 'u') = false) (hescaped : escapedByte? (byteOf e) = some b)
    (hc : String.utf8EncodeChar c = [b]) :
    ∃ pieces, Collects (utf8 ['\\', e]) pieces ∧ StandFor pieces (utf8 [c]) := by
  have hletters : utf8 ['\\', e] = [byteOf '\\', byteOf e] := utf8_of_ascii (by simp [he])
  have hbyte : utf8 [c] = [b] := by rw [utf8_cons, hc, utf8_nil, List.append_nil]
  rw [hletters, hbyte]
  exact ⟨_, collects_letter hu hescaped, standFor_bytes [b]⟩

/-- A control character comes back from its code. -/
theorem code_standsFor {c : Char} (h : c.toNat < 0x20) :
    ∃ pieces, Collects (utf8 ['\\', 'u', '0', '0', hexChar (c.toNat / 16), hexChar (c.toNat % 16)])
      pieces ∧ StandFor pieces (utf8 [c]) := by
  have hhex : ∀ n < 16, (hexChar n).toNat ≤ 127 := by decide
  have hhigh := hhex (c.toNat / 16) (by omega)
  have hlow := hhex (c.toNat % 16) (by omega)
  rw [utf8_of_ascii (by simp [hhigh, hlow])]
  have hzero : hexOfByte? (byteOf '0') = some 0 := rfl
  have hcollects := collects_code hzero hzero
    (hexOfByte?_hexChar (n := c.toNat / 16) (by omega))
    (hexOfByte?_hexChar (n := c.toNat % 16) (by omega))
  have hcode : 16 * (16 * (16 * 0 + 0) + c.toNat / 16) + c.toNat % 16 = c.toNat := by omega
  rw [hcode] at hcollects
  exact ⟨_, hcollects, standFor_code h⟩

/-- **The written form of a character stands for the character.** -/
theorem escapeChar_standsFor (c : Char) :
    ∃ pieces, Collects (utf8 (escapeChar c)) pieces ∧ StandFor pieces (utf8 [c]) := by
  unfold escapeChar
  -- Seven characters have a letter, other control characters a code; the rest mean themselves.
  split_ifs with hquote hescape hb ht hn hf hr hcontrol
  · exact letter_standsFor (by decide) rfl rfl (by rw [hquote]; rfl)
  · exact letter_standsFor (by decide) rfl rfl (by rw [hescape]; rfl)
  · exact letter_standsFor (by decide) rfl rfl (by rw [hb]; rfl)
  · exact letter_standsFor (by decide) rfl rfl (by rw [ht]; rfl)
  · exact letter_standsFor (by decide) rfl rfl (by rw [hn]; rfl)
  · exact letter_standsFor (by decide) rfl rfl (by rw [hf]; rfl)
  · exact letter_standsFor (by decide) rfl rfl (by rw [hr]; rfl)
  · exact code_standsFor hcontrol
  · have hplain : ∀ b ∈ utf8 [c], IsPlain b := by
      simpa [utf8] using fun b => isPlain_of_mem hquote hescape hcontrol
    exact ⟨_, collects_plain hplain, standFor_bytes _⟩

/-- **Escaped text stands for the text.** -/
theorem escapeAll_standsFor (cs : List Char) :
    ∃ pieces, Collects (utf8 (cs.flatMap escapeChar)) pieces ∧ StandFor pieces (utf8 cs) := by
  induction cs with
  | nil => exact ⟨[], Collects.nil, StandFor.nil⟩
  | cons c cs ih =>
    obtain ⟨pieces, hcollects, hstands⟩ := escapeChar_standsFor c
    obtain ⟨pieces', hcollects', hstands'⟩ := ih
    rw [List.flatMap_cons, utf8_append, ← List.singleton_append (l := cs), utf8_append]
    exact ⟨pieces ++ pieces', hcollects.append hcollects', hstands.append hstands'⟩

/-- The pieces of a literal end at its quote. -/
theorem readText_closed {bytes : List UInt8} {pieces : List TextPiece} (h : Collects bytes pieces)
    (rest : List UInt8) :
    readText (bytes ++ byteOf '"' :: rest) = some (textOfPieces? pieces, rest) := by
  have hclose : readPieces (byteOf '"' :: rest) = some ([], rest) := by
    rw [readPieces.eq_def]
    rfl
  simp only [readText, h (byteOf '"' :: rest), hclose, Option.map_some, List.append_nil]

/-- **A text reads back from its literal.** -/
theorem readText_quote (text : Option String) (rest : List UInt8) :
    ∃ literal, utf8 (quote text) = byteOf '"' :: literal ∧
      readText (literal ++ rest) = some (text, rest) := by
  cases text with
  | none =>
    have h13 : hexOfByte? (byteOf 'd') = some 13 := rfl
    have h8 : hexOfByte? (byteOf '8') = some 8 := rfl
    have h0 : hexOfByte? (byteOf '0') = some 0 := rfl
    have hcollects := collects_code h13 h8 h0 h0
    have hquote : utf8 ['"', '\\', 'u', 'd', '8', '0', '0', '"'] = _ := utf8_of_ascii (by simp)
    refine ⟨['\\', 'u', 'd', '8', '0', '0', '"'].map byteOf, ?_, readText_closed hcollects rest⟩
    exact hquote
  | some s =>
    obtain ⟨pieces, hcollects, hstands⟩ := escapeAll_standsFor s.toList
    have hbytes : utf8? pieces = some (utf8 s.toList) := by simpa [utf8?] using hstands []
    refine ⟨utf8 (s.toList.flatMap escapeChar) ++ [byteOf '"'], ?_, ?_⟩
    · rw [quote, utf8_ascii (by decide), utf8_append, utf8_ascii (by decide), utf8_nil]
    · rw [List.append_assoc, List.singleton_append, readText_closed hcollects, textOfPieces?,
        hbytes]
      simp only [Option.bind_eq_bind, Option.bind_some, fromUTF8?_utf8]

end QueryPlans.Json
