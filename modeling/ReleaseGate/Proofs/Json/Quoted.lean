import ReleaseGate.Json.Decode
import ReleaseGate.Json.Printer
import ReleaseGate.Proofs.Text.Utf8

/-!
# Quoted texts

A text is written between quotes with its controls, quotes and backslashes escaped. The scanner
finds its end, and what is made of the pieces in between is the text again.
-/
namespace ReleaseGate.Json

open Text.Utf8

/-- The controls whose escape has a letter of its own. -/
def hasLetter (c : Char) : Prop :=
  c = '\x08' ∨ c = '\x0C' ∨ c = '\n' ∨ c = '\r' ∨ c = '\t'

instance (c : Char) : Decidable (hasLetter c) := by
  unfold hasLetter
  infer_instance

/-- The pieces that the scanner cuts a written character into. -/
def piecesOf (c : Char) : List Piece :=
  if c.toNat < 0x20 ∧ ¬ hasLetter c then [.unit c.toNat]
  else (String.utf8EncodeChar c).map .byte

theorem byteOf_eq {c : Char} : byteOf c = UInt8.ofNat c.toNat := rfl

theorem byteOf_inj {c d : Char} (hc : c.toNat < 0x80) (hd : d.toNat < 0x80)
    (h : byteOf c = byteOf d) : c = d := by
  have hbytes : (byteOf c).toNat = (byteOf d).toNat := by rw [h]
  rw [byteOf_eq, byteOf_eq, toNat_ofNat (by omega), toNat_ofNat (by omega)] at hbytes
  exact Char.toNat_inj.1 hbytes

theorem encode_cons_of_lt {c : Char} (h : c.toNat < 0x80) (s : List Char) :
    encode (c :: s) = byteOf c :: encode s := by
  rw [encode_cons, utf8EncodeChar_of_lt h]
  rfl

theorem hexUnit?_of_lt {n : ℕ} (h : n < 0x20) :
    hexUnit? (byteOf '0') (byteOf '0') (byteOf (hexDigit (n / 16))) (byteOf (hexDigit (n % 16))) =
      some n := by
  have hall : ∀ n < 0x20, hexUnit? (byteOf '0') (byteOf '0') (byteOf (hexDigit (n / 16)))
      (byteOf (hexDigit (n % 16))) = some n := by
    decide
  exact hall n h

theorem hexDigit_lt {n : ℕ} (h : n < 16) : (hexDigit n).toNat < 0x80 := by
  have hall : ∀ n < 16, (hexDigit n).toNat < 0x80 := by decide
  exact hall n h

/-- A byte that needs no escape is a piece of its own. -/
theorem scanText_byte {b : UInt8} (hlow : 0x20 ≤ b.toNat) (hquote : b ≠ byteOf '"')
    (hslash : b ≠ byteOf '\\') {rest tail : List UInt8} {pieces : List Piece} {cut : Option Break}
    (h : scanText rest = (⟨pieces, cut⟩, tail)) :
    scanText (b :: rest) = (⟨.byte b :: pieces, cut⟩, tail) := by
  have hle : ¬ b < 0x20 := by
    rw [UInt8.lt_iff_toNat_lt]
    exact Nat.not_lt.2 hlow
  rw [scanText.eq_def]
  simp only [hquote, hslash, hle, if_false, h]
  rfl

theorem scanText_bytes {bytes : List UInt8} (hlow : ∀ b ∈ bytes, 0x80 ≤ b.toNat)
    {rest tail : List UInt8} {pieces : List Piece} {cut : Option Break}
    (h : scanText rest = (⟨pieces, cut⟩, tail)) :
    scanText (bytes ++ rest) = (⟨bytes.map .byte ++ pieces, cut⟩, tail) := by
  induction bytes with
  | nil => exact h
  | cons b bytes ih =>
    have hb := hlow b List.mem_cons_self
    have hne : ∀ c : Char, c.toNat < 0x80 → b ≠ byteOf c := by
      intro c hc he
      rw [he, byteOf_eq, toNat_ofNat (by omega)] at hb
      omega
    exact scanText_byte (by omega) (hne '"' (by decide)) (hne '\\' (by decide))
      (ih fun x hx => hlow x (List.mem_cons_of_mem b hx))

theorem scanText_letter {e b : UInt8} (hu : e ≠ byteOf 'u') (he : escaped? e = some b)
    {rest tail : List UInt8} {pieces : List Piece} {cut : Option Break}
    (h : scanText rest = (⟨pieces, cut⟩, tail)) :
    scanText (byteOf '\\' :: e :: rest) = (⟨.byte b :: pieces, cut⟩, tail) := by
  have hquote : byteOf '\\' ≠ byteOf '"' := by decide
  rw [scanText.eq_def]
  simp only [hquote, hu, if_false, if_true, he, h]
  rfl

theorem scanText_unit {a b c d : UInt8} {n : ℕ} (hn : hexUnit? a b c d = some n)
    {rest tail : List UInt8} {pieces : List Piece} {cut : Option Break}
    (h : scanText rest = (⟨pieces, cut⟩, tail)) :
    scanText (byteOf '\\' :: byteOf 'u' :: a :: b :: c :: d :: rest) =
      (⟨.unit n :: pieces, cut⟩, tail) := by
  have hquote : byteOf '\\' ≠ byteOf '"' := by decide
  rw [scanText.eq_def]
  simp only [hquote, if_false, if_true, hn, h]
  rfl

theorem piecesOf_of_le {c : Char} (h : 0x20 ≤ c.toNat ∨ hasLetter c) :
    piecesOf c = (String.utf8EncodeChar c).map .byte := by
  apply if_neg
  intro hc
  rcases h with h | h
  · omega
  · exact hc.2 h

theorem piecesOf_control {c : Char} (h : c.toNat < 0x20) (hl : ¬ hasLetter c) :
    piecesOf c = [.unit c.toNat] :=
  if_pos ⟨h, hl⟩

section Escape

variable {c : Char} {rest tail : List UInt8} {pieces : List Piece} {cut : Option Break}

/-- A backslash and a letter are read as the character that they stand for. -/
theorem scanText_lettered {letter : Char} (hc : c.toNat < 0x80) (hl : letter.toNat < 0x80)
    (hp : 0x20 ≤ c.toNat ∨ hasLetter c) (hu : byteOf letter ≠ byteOf 'u')
    (he : escaped? (byteOf letter) = some (byteOf c))
    (h : scanText rest = (⟨pieces, cut⟩, tail)) :
    scanText (encode ['\\', letter] ++ rest) = (⟨piecesOf c ++ pieces, cut⟩, tail) := by
  rw [encode_cons_of_lt (by decide), encode_cons_of_lt hl, piecesOf_of_le hp,
    utf8EncodeChar_of_lt hc]
  exact scanText_letter hu he h

theorem scanText_control (hc : c.toNat < 0x20) (hl : ¬ hasLetter c)
    (h : scanText rest = (⟨pieces, cut⟩, tail)) :
    scanText (encode ['\\', 'u', '0', '0', hexDigit (c.toNat / 16), hexDigit (c.toNat % 16)] ++
      rest) = (⟨piecesOf c ++ pieces, cut⟩, tail) := by
  rw [piecesOf_control hc hl, encode_cons_of_lt (by decide), encode_cons_of_lt (by decide),
    encode_cons_of_lt (by decide), encode_cons_of_lt (by decide),
    encode_cons_of_lt (hexDigit_lt (by omega)), encode_cons_of_lt (hexDigit_lt (by omega))]
  exact scanText_unit (hexUnit?_of_lt hc) h

theorem scanText_plain (hc : 0x20 ≤ c.toNat) (hquote : c ≠ '"') (hslash : c ≠ '\\')
    (h : scanText rest = (⟨pieces, cut⟩, tail)) :
    scanText (encode [c] ++ rest) = (⟨piecesOf c ++ pieces, cut⟩, tail) := by
  have hencode : encode [c] = String.utf8EncodeChar c := by simp [encode]
  rw [piecesOf_of_le (.inl hc), hencode]
  by_cases hascii : c.toNat < 0x80
  · rw [utf8EncodeChar_of_lt hascii]
    apply scanText_byte ?_ ?_ ?_ h
    · rw [toNat_ofNat (by omega)]
      omega
    · exact fun he => hquote (byteOf_inj hascii (by decide) he)
    · exact fun he => hslash (byteOf_inj hascii (by decide) he)
  · exact scanText_bytes (fun b hb => le_of_mem_utf8EncodeChar (by omega) hb) h

theorem scanText_escape (c : Char) (h : scanText rest = (⟨pieces, cut⟩, tail)) :
    scanText (encode (escape c) ++ rest) = (⟨piecesOf c ++ pieces, cut⟩, tail) := by
  unfold escape
  by_cases hquote : c = '"'
  · subst hquote
    exact scanText_lettered (by decide) (by decide) (by decide) (by decide) (by decide) h
  by_cases hslash : c = '\\'
  · subst hslash
    exact scanText_lettered (by decide) (by decide) (by decide) (by decide) (by decide) h
  by_cases hl : hasLetter c
  · rw [if_neg hquote, if_neg hslash]
    rcases hl with rfl | rfl | rfl | rfl | rfl <;>
      exact scanText_lettered (by decide) (by decide) (by decide) (by decide) (by decide) h
  have hnone := hl
  simp only [hasLetter, not_or] at hnone
  obtain ⟨hb, hf, hn, hr, ht⟩ := hnone
  simp only [hquote, hslash, hb, hf, hn, hr, ht, if_false]
  split
  case isTrue hc => exact scanText_control hc hl h
  case isFalse hc => exact scanText_plain (by omega) hquote hslash h

end Escape

/-- The scanner reads a written text up to its closing quote. -/
theorem scanText_quoted (s : List Char) (rest : List UInt8) :
    scanText (encode (s.flatMap escape ++ ['"']) ++ rest) = (⟨s.flatMap piecesOf, none⟩, rest) := by
  induction s with
  | nil =>
    rw [List.flatMap_nil, List.nil_append, encode_cons_of_lt (by decide), scanText.eq_def]
    simp [encode_nil]
  | cons c s ih =>
    rw [List.flatMap_cons, List.flatMap_cons, List.append_assoc, encode_append, List.append_assoc]
    exact scanText_escape c ih

/-- The token of a written text. -/
def textOf (s : String) : Text :=
  ⟨s.toList.flatMap piecesOf, none⟩

theorem bytes_piecesOf (c : Char) (pieces : List Piece) {bytes : List UInt8}
    (h : Text.bytes none pieces = .ok bytes) :
    Text.bytes none (piecesOf c ++ pieces) = .ok (String.utf8EncodeChar c ++ bytes) := by
  unfold piecesOf
  split
  case isTrue hc =>
    have hlow : Text.isLow c.toNat = false := by simp [Text.isLow]; omega
    have hhigh : Text.isHigh c.toNat = false := by simp [Text.isHigh]; omega
    rw [List.singleton_append, Text.bytes.eq_def]
    simp only [hlow, hhigh, h, Bool.false_eq_true, if_false, bind, Except.bind, Char.ofNat_toNat]
    rfl
  case isFalse =>
    induction String.utf8EncodeChar c with
    | nil => exact h
    | cons b rest ih =>
      simp only [List.map_cons, List.cons_append, Text.bytes, ih]
      rfl

theorem decode_textOf (s : String) : (textOf s).decode = .ok s := by
  have hbytes : Text.bytes none (s.toList.flatMap piecesOf) = .ok (encode s.toList) := by
    induction s.toList with
    | nil => rfl
    | cons c rest ih =>
      rw [List.flatMap_cons, encode_cons]
      exact bytes_piecesOf c _ ih
  rw [textOf, Text.decode, hbytes]
  simp only [bind, Except.bind, decode?_encode, String.ofList_toList]
  rfl

end ReleaseGate.Json
