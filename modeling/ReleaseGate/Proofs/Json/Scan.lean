import ReleaseGate.Proofs.Json.Numeral

/-!
# Tokens of written documents

Each value has its tokens, and a laid-out value is cut into just these, whatever follows it that
does not belong to a number.
-/
namespace ReleaseGate.Json

open Text.Utf8

def commaJoined : List (List Token) → List Token
  | [] => []
  | [piece] => piece
  | piece :: pieces => piece ++ .comma :: commaJoined pieces

mutual

def Value.tokens : Value → List Token
  | .null => [.null]
  | .bool b => [.bool b]
  | .number n => [.number n.literal]
  | .text s => [.text (textOf s)]
  | .list items => .openList :: (commaJoined (itemTokens items) ++ [.closeList])
  | .record fields => .openRecord :: (commaJoined (fieldTokens fields) ++ [.closeRecord])

def itemTokens : List Value → List (List Token)
  | [] => []
  | v :: items => v.tokens :: itemTokens items

def fieldTokens : List (String × Value) → List (List Token)
  | [] => []
  | (name, v) :: fields => (.text (textOf name) :: .colon :: v.tokens) :: fieldTokens fields

end

/-- The text is cut into the tokens, with a step for each, and the scanner goes on behind it. -/
structure Scans (text : List Char) (ts : List Token) : Prop where
  length_le : ts.length ≤ (encode text).length
  scan : ∀ n rest, Delimited rest →
    tokensWithin (ts.length + n) (encode text ++ rest) = ts ++ tokensWithin n rest

/-- What a number cannot go on with. -/
def Opens (text : List Char) : Prop :=
  ∃ c rest, text = c :: rest ∧ c.toNat < 0x80 ∧ digit? (byteOf c) = none ∧
    byteOf c ≠ byteOf '.' ∧ byteOf c ≠ byteOf 'e' ∧ byteOf c ≠ byteOf 'E'

theorem Opens.delimited {text : List Char} (h : Opens text) (rest : List UInt8) :
    Delimited (encode text ++ rest) := by
  obtain ⟨c, text, rfl, hc, hdelimits⟩ := h
  rw [encode_cons_of_lt hc, List.cons_append]
  exact hdelimits

theorem Scans.append {a b : List Char} {ts us : List Token} (ha : Scans a ts) (hb : Scans b us)
    (h : Opens b) : Scans (a ++ b) (ts ++ us) where
  length_le := by
    have hats := ha.length_le
    have hbus := hb.length_le
    rw [encode_append, List.length_append, List.length_append]
    omega
  scan n rest hrest := by
    rw [encode_append, List.append_assoc, List.length_append, Nat.add_assoc,
      ha.scan _ _ (h.delimited rest), hb.scan n rest hrest, List.append_assoc]

theorem Scans.nil : Scans [] [] where
  length_le := Nat.le_refl 0
  scan n rest _ := by
    rw [encode_nil, List.nil_append, List.nil_append, List.length_nil, Nat.zero_add]

/-- A token that is read whole, whatever its delimited end is followed by. -/
theorem Scans.of_token {text : List Char} {t : Token}
    (h : ∀ rest, Delimited rest → ∃ b bytes, encode text ++ rest = b :: bytes ∧
      isSpaceByte b = false ∧ scanToken b bytes = (t, rest)) : Scans text [t] where
  length_le := by
    obtain ⟨b, bytes, hbytes, -⟩ := h [] trivial
    rw [List.append_nil] at hbytes
    simp [hbytes]
  scan n rest hrest := by
    obtain ⟨b, bytes, hbytes, hspace, htoken⟩ := h rest hrest
    rw [hbytes, List.length_singleton, Nat.add_comm, tokensWithin,
      List.dropWhile_cons_of_neg (by simp [hspace])]
    simp only [htoken]
    rfl

/-- A mark is a token of its own. -/
theorem Scans.mark {c : Char} {t : Token} (hc : c.toNat < 0x80)
    (hspace : isSpaceByte (byteOf c) = false) (ht : ∀ rest, scanToken (byteOf c) rest = (t, rest))
    {text : List Char} {ts : List Token} (h : Scans text ts) : Scans (c :: text) (t :: ts) where
  length_le := by
    have hle := h.length_le
    rw [encode_cons_of_lt hc, List.length_cons, List.length_cons]
    omega
  scan n rest hrest := by
    have hsteps : (t :: ts).length + n = (ts.length + n) + 1 := by
      rw [List.length_cons]
      omega
    rw [encode_cons_of_lt hc, List.cons_append, hsteps, tokensWithin,
      List.dropWhile_cons_of_neg (by simp [hspace])]
    simp only [ht, h.scan n rest hrest]
    rfl

theorem tokensWithin_space {b : UInt8} (h : isSpaceByte b = true) (n : ℕ) (rest : List UInt8) :
    tokensWithin n (b :: rest) = tokensWithin n rest := by
  cases n with
  | zero => rfl
  | succ n => rw [tokensWithin, tokensWithin, List.dropWhile_cons_of_pos h]

theorem Scans.space {c : Char} (hc : c.toNat < 0x80) (hspace : isSpaceByte (byteOf c) = true)
    {text : List Char} {ts : List Token} (h : Scans text ts) : Scans (c :: text) ts where
  length_le := by
    have hle := h.length_le
    rw [encode_cons_of_lt hc, List.length_cons]
    omega
  scan n rest hrest := by
    rw [encode_cons_of_lt hc, List.cons_append, tokensWithin_space hspace, h.scan n rest hrest]

theorem Scans.newLine {text : List Char} {ts : List Token} (h : Scans text ts) (level : ℕ) :
    Scans (newLine level ++ text) ts := by
  have hspaces : ∀ n, Scans (List.replicate n ' ' ++ text) ts := by
    intro n
    induction n with
    | zero => exact h
    | succ n ih => exact Scans.space (by decide) (by decide) ih
  exact Scans.space (by decide) (by decide) (hspaces (2 * level))

theorem opens_newLine (level : ℕ) (text : List Char) : Opens (newLine level ++ text) :=
  ⟨'\n', _, rfl, by decide⟩

theorem Scans.quote (s : String) : Scans (quote s) [.text (textOf s)] := by
  refine Scans.of_token fun rest _ =>
    ⟨byteOf '"', encode (s.toList.flatMap escape ++ ['"']) ++ rest, ?_, by decide, ?_⟩
  · rw [Json.quote, encode_cons_of_lt (by decide), List.cons_append]
  · have htoken : ∀ bytes, scanToken (byteOf '"') bytes =
        (.text (scanText bytes).1, (scanText bytes).2) := fun bytes => rfl
    rw [htoken, scanText_quoted]
    rfl

/-- A word of the grammar: its letters are all read, whatever follows them. -/
theorem Scans.word (v : Value) (h : v = .null ∨ ∃ b, v = .bool b) : Scans (compact v) v.tokens := by
  rcases h with rfl | ⟨_ | _, rfl⟩
  · exact Scans.of_token fun rest _ => ⟨byteOf 'n', _, rfl, by decide, rfl⟩
  · exact Scans.of_token fun rest _ => ⟨byteOf 'f', _, rfl, by decide, rfl⟩
  · exact Scans.of_token fun rest _ => ⟨byteOf 't', _, rfl, by decide, rfl⟩

theorem Scans.number (n : Number) : Scans n.text [.number n.literal] := by
  rw [← text_literal]
  exact Scans.of_token fun rest hrest => scanToken_literal (isProper_literal n) hrest

theorem Scans.joined (level : ℕ) {pieces : List (List Char)} {ts : List (List Token)}
    (h : List.Forall₂ Scans pieces ts) (hne : pieces ≠ []) {text : List Char} {us : List Token}
    (ht : Scans text us) (hopens : Opens text) :
    Scans (joined (',' :: Json.newLine level) pieces ++ text) (commaJoined ts ++ us) := by
  induction h with
  | nil => exact absurd rfl hne
  | @cons piece t pieces ts hpiece hpieces ih =>
    cases hpieces with
    | nil => exact hpiece.append ht hopens
    | @cons second u pieces ts hsecond hpieces =>
      have htail := ih (by simp)
      have hcomma : ∀ bytes, scanToken (byteOf ',') bytes = (.comma, bytes) := fun bytes => rfl
      simp only [Json.joined, commaJoined, List.append_assoc, List.cons_append] at htail ⊢
      exact hpiece.append (Scans.mark (by decide) (by decide) hcomma (htail.newLine level))
        ⟨',', _, rfl, by decide⟩

theorem Scans.block {opening closing : Char} {first last : Token}
    (hopening : opening.toNat < 0x80 ∧ isSpaceByte (byteOf opening) = false)
    (hfirst : ∀ rest, scanToken (byteOf opening) rest = (first, rest))
    (hclosing : closing.toNat < 0x80 ∧ isSpaceByte (byteOf closing) = false)
    (hlast : ∀ rest, scanToken (byteOf closing) rest = (last, rest)) (level : ℕ)
    {pieces : List (List Char)} {ts : List (List Token)} (h : List.Forall₂ Scans pieces ts) :
    Scans (block opening closing level pieces) (first :: (commaJoined ts ++ [last])) := by
  have hend : Scans [closing] [last] := Scans.mark hclosing.1 hclosing.2 hlast Scans.nil
  unfold Json.block
  split
  case isTrue hempty =>
    obtain rfl := List.isEmpty_iff.1 hempty
    cases h
    exact Scans.mark hopening.1 hopening.2 hfirst hend
  case isFalse hempty =>
    have hne : pieces ≠ [] := by simpa using hempty
    have hbody := Scans.joined (level + 1) h hne (hend.newLine level)
      (opens_newLine level _)
    have hall := Scans.mark hopening.1 hopening.2 hfirst (hbody.newLine (level + 1))
    simpa only [List.append_assoc] using hall

mutual

/-- A laid-out value is cut into its tokens. -/
theorem scans_pretty (level : ℕ) : (v : Value) → Scans (pretty level v) v.tokens
  | .null => Scans.word .null (.inl rfl)
  | .bool b => Scans.word (.bool b) (.inr ⟨b, rfl⟩)
  | .number n => Scans.number n
  | .text s => Scans.quote s
  | .list items =>
    Scans.block (by decide) (fun _ => rfl) (by decide) (fun _ => rfl) level
      (scans_prettyItems (level + 1) items)
  | .record fields =>
    Scans.block (by decide) (fun _ => rfl) (by decide) (fun _ => rfl) level
      (scans_prettyFields (level + 1) fields)

theorem scans_prettyItems (level : ℕ) : (items : List Value) →
    List.Forall₂ Scans (prettyItems level items) (itemTokens items)
  | [] => .nil
  | v :: items => .cons (scans_pretty level v) (scans_prettyItems level items)

theorem scans_prettyFields (level : ℕ) : (fields : List (String × Value)) →
    List.Forall₂ Scans (prettyFields level fields) (fieldTokens fields)
  | [] => .nil
  | (name, v) :: fields => by
    have hcolon : ∀ rest, scanToken (byteOf ':') rest = (.colon, rest) := fun rest => rfl
    have hspaced : Scans (' ' :: pretty level v) v.tokens :=
      Scans.space (by decide) (by decide) (scans_pretty level v)
    have hvalue := Scans.mark (by decide) (by decide) hcolon hspaced
    have hfield := (Scans.quote name).append hvalue ⟨':', _, rfl, by decide⟩
    exact .cons hfield (scans_prettyFields level fields)

end

theorem tokensWithin_nil (n : ℕ) : tokensWithin n [] = [] := by
  cases n with
  | zero => rfl
  | succ n => rfl

/-- The tokens of a stored document are those of its value. -/
theorem tokens_pretty (v : Value) : tokens (encode (pretty 0 v ++ ['\n'])) = v.tokens := by
  have hscans := scans_pretty 0 v
  have hend : encode ['\n'] = [byteOf '\n'] := encode_cons_of_lt (by decide) []
  have hdelimited : Delimited [byteOf '\n'] := by
    unfold Delimited
    decide
  have hlength : (encode (pretty 0 v) ++ [byteOf '\n']).length = v.tokens.length +
      ((encode (pretty 0 v)).length - v.tokens.length + 1) := by
    have hle := hscans.length_le
    rw [List.length_append, List.length_singleton]
    omega
  rw [tokens, encode_append, hend, hlength, hscans.scan _ _ hdelimited,
    tokensWithin_space (by decide), tokensWithin_nil, List.append_nil]

end ReleaseGate.Json
