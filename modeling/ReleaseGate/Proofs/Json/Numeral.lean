import Mathlib.Tactic.IntervalCases
import ReleaseGate.Json.Token
import ReleaseGate.Proofs.Json.Quoted

/-!
# Numerals

Every number is written as a literal that has no needless zero in front, and the scanner reads the
literal back as it stands.
-/
namespace ReleaseGate.Json

open Text.Utf8 Decimal

/-- The decimal digits of a natural, from the left. -/
def digitsOf (n : ℕ) : List ℕ :=
  (natDigits n).map fun c => c.toNat - 48

theorem digitsOf_of_lt {n : ℕ} (h : n < 10) : digitsOf n = [n] := by
  rw [digitsOf, natDigits, Nat.toDigits_of_lt_base h]
  simp [Nat.toNat_digitChar_sub_48_of_lt_ten h]

theorem digitsOf_of_le {n : ℕ} (h : 10 ≤ n) : digitsOf n = digitsOf (n / 10) ++ [n % 10] := by
  have hlt : n % 10 < 10 := Nat.mod_lt n (by decide)
  rw [digitsOf, natDigits, Nat.toDigits_of_base_le (by decide) h]
  simp [digitsOf, natDigits, Nat.toNat_digitChar_sub_48_of_lt_ten hlt]

theorem lt_of_mem_digitsOf {n d : ℕ} (h : d ∈ digitsOf n) : d < 10 := by
  induction n using Nat.strongRecOn with
  | ind n ih =>
    by_cases hn : n < 10
    · rw [digitsOf_of_lt hn, List.mem_singleton] at h
      omega
    · rw [digitsOf_of_le (by omega), List.mem_append, List.mem_singleton] at h
      rcases h with h | h
      · exact ih (n / 10) (by omega) h
      · omega

theorem digitsOf_ne_nil (n : ℕ) : digitsOf n ≠ [] := by
  by_cases hn : n < 10
  · simp [digitsOf_of_lt hn]
  · simp [digitsOf_of_le (Nat.not_lt.1 hn)]

theorem digitsOf_ne_zero_cons {n : ℕ} (hpos : 0 < n) (rest : List ℕ) :
    digitsOf n ≠ 0 :: rest := by
  induction n using Nat.strongRecOn generalizing rest with
  | ind n ih =>
    intro h
    by_cases hn : n < 10
    · rw [digitsOf_of_lt hn, List.cons.injEq] at h
      omega
    · rw [digitsOf_of_le (by omega)] at h
      cases hd : digitsOf (n / 10) with
      | nil => exact digitsOf_ne_nil _ hd
      | cons d digits =>
        rw [hd, List.cons_append, List.cons.injEq] at h
        exact ih (n / 10) (by omega) (by omega) digits (h.1 ▸ hd)

/-- Only zero is written with a zero in front. -/
theorem eq_nil_of_digitsOf {n : ℕ} {rest : List ℕ} (h : digitsOf n = 0 :: rest) : rest = [] := by
  rcases Nat.eq_zero_or_pos n with rfl | hpos
  · rw [digitsOf_of_lt (by decide), List.cons.injEq] at h
    exact h.2.symm
  · exact absurd h (digitsOf_ne_zero_cons hpos rest)

theorem map_digitChar_digitsOf (n : ℕ) : (digitsOf n).map Nat.digitChar = natDigits n := by
  induction n using Nat.strongRecOn with
  | ind n ih =>
    by_cases hn : n < 10
    · rw [digitsOf_of_lt hn, natDigits, Nat.toDigits_of_lt_base hn]
      rfl
    · rw [digitsOf_of_le (by omega), List.map_append, ih (n / 10) (by omega), natDigits, natDigits,
        Nat.toDigits_of_base_le (by decide) (by omega : 10 ≤ n)]
      rfl

theorem length_digitsOf (n : ℕ) : (digitsOf n).length = (natDigits n).length :=
  List.length_map _

def exponentText : Option (Bool × List ℕ) → List Char
  | none => []
  | some (negative, digits) =>
    'e' :: (if negative then '-' else '+') :: digits.map Nat.digitChar

def fractionText (fraction : List ℕ) : List Char :=
  if fraction = [] then [] else '.' :: fraction.map Nat.digitChar

/-- How a literal is spelled. -/
def Literal.text (l : Literal) : List Char :=
  (if l.negative then ['-'] else []) ++
    (l.whole.map Nat.digitChar ++ (fractionText l.fraction ++ exponentText l.exponent))

/-- A literal that the grammar of numbers allows. -/
structure Literal.IsProper (l : Literal) : Prop where
  whole_ne : l.whole ≠ []
  leading : ∀ rest, l.whole = 0 :: rest → rest = []
  whole_lt : ∀ d ∈ l.whole, d < 10
  fraction_lt : ∀ d ∈ l.fraction, d < 10
  exponent : ∀ negative digits, l.exponent = some (negative, digits) →
    digits ≠ [] ∧ ∀ d ∈ digits, d < 10

/-- The bytes that may follow a number. -/
def Delimited : List UInt8 → Prop
  | [] => True
  | b :: _ => digit? b = none ∧ b ≠ byteOf '.' ∧ b ≠ byteOf 'e' ∧ b ≠ byteOf 'E'

theorem digit?_digitChar {d : ℕ} (h : d < 10) : digit? (byteOf (Nat.digitChar d)) = some d := by
  interval_cases d <;> rfl

theorem digitChar_lt {d : ℕ} (h : d < 10) : (Nat.digitChar d).toNat < 0x80 := by
  interval_cases d <;> decide

/-- Digits are read up to the first byte that is none. -/
theorem scanDigits_digits {digits : List ℕ} (hdigits : ∀ d ∈ digits, d < 10) {rest : List UInt8}
    (hrest : ∀ b tail, rest = b :: tail → digit? b = none) :
    scanDigits (encode (digits.map Nat.digitChar) ++ rest) = (digits, rest) := by
  induction digits with
  | nil =>
    cases rest with
    | nil => rfl
    | cons b tail => simp [scanDigits, encode_nil, hrest b tail rfl]
  | cons d digits ih =>
    have hd : d < 10 := hdigits d List.mem_cons_self
    have ih := ih fun x hx => hdigits x (List.mem_cons_of_mem d hx)
    simp only [scanDigits, Prod.mk.injEq] at ih
    rw [List.map_cons, encode_cons_of_lt (digitChar_lt hd), List.cons_append]
    simp [scanDigits, digit?_digitChar hd, ih]

theorem head_digits {digits : List ℕ} (hne : digits ≠ []) (hdigits : ∀ d ∈ digits, d < 10)
    (rest : List UInt8) : ∃ d bytes, d < 10 ∧
      encode (digits.map Nat.digitChar) ++ rest = byteOf (Nat.digitChar d) :: bytes := by
  obtain ⟨d, digits, rfl⟩ := List.exists_cons_of_ne_nil hne
  have hd : d < 10 := hdigits d List.mem_cons_self
  exact ⟨d, _, hd, by rw [List.map_cons, encode_cons_of_lt (digitChar_lt hd), List.cons_append]⟩

theorem Delimited.not_digit {rest : List UInt8} (h : Delimited rest) :
    ∀ b tail, rest = b :: tail → digit? b = none := by
  rintro b tail rfl
  exact h.1

theorem scanExponent_of_delimited (l : Literal) {rest : List UInt8} (h : Delimited rest) :
    scanExponent l rest = (.number l, rest) := by
  cases rest with
  | nil => rfl
  | cons b tail =>
    obtain ⟨-, -, he, hE⟩ := h
    rw [scanExponent, if_neg (not_or.2 ⟨he, hE⟩)]

theorem scanExponent_exponentText {l : Literal} (hl : l.exponent = none)
    {exponent : Option (Bool × List ℕ)}
    (hproper : ∀ negative digits, exponent = some (negative, digits) →
      digits ≠ [] ∧ ∀ d ∈ digits, d < 10) {rest : List UInt8} (h : Delimited rest) :
    scanExponent l (encode (exponentText exponent) ++ rest) =
      (.number { l with exponent := exponent }, rest) := by
  cases exponent with
  | none =>
    rw [exponentText, encode_nil, List.nil_append, scanExponent_of_delimited l h, ← hl]
  | some e =>
    obtain ⟨negative, digits⟩ := e
    obtain ⟨hne, hdigits⟩ := hproper negative digits rfl
    have hscan := scanDigits_digits hdigits h.not_digit
    have hempty : digits.isEmpty = false := by simpa using hne
    have hplus : byteOf '+' ≠ byteOf '-' := by decide
    cases negative with
    | false =>
      rw [exponentText, encode_cons_of_lt (by decide), List.cons_append, scanExponent,
        if_pos (.inl rfl)]
      simp [encode_cons_of_lt, hscan, hempty, hplus]
    | true =>
      rw [exponentText, encode_cons_of_lt (by decide), List.cons_append, scanExponent,
        if_pos (.inl rfl)]
      simp [encode_cons_of_lt, hscan, hempty]

theorem not_digit_exponentText (exponent : Option (Bool × List ℕ)) {rest : List UInt8}
    (h : Delimited rest) : ∀ b tail, encode (exponentText exponent) ++ rest = b :: tail →
      digit? b = none ∧ b ≠ byteOf '.' := by
  intro b tail hb
  cases exponent with
  | none =>
    rw [exponentText, encode_nil, List.nil_append] at hb
    subst hb
    exact ⟨h.1, h.2.1⟩
  | some e =>
    rw [exponentText, encode_cons_of_lt (by decide), List.cons_append, List.cons.injEq] at hb
    rw [← hb.1]
    decide

/-- What follows the whole digits begins with a point, with an exponent, or with what delimits the
number; never with a digit. -/
theorem not_digit_fractionText (fraction : List ℕ) (exponent : Option (Bool × List ℕ))
    {rest : List UInt8} (h : Delimited rest) :
    ∀ b tail, encode (fractionText fraction ++ exponentText exponent) ++ rest = b :: tail →
      digit? b = none := by
  intro b tail hb
  rw [encode_append, List.append_assoc, fractionText] at hb
  split at hb
  case isTrue =>
    rw [encode_nil, List.nil_append] at hb
    exact (not_digit_exponentText exponent h b tail hb).1
  case isFalse =>
    rw [encode_cons_of_lt (by decide), List.cons_append, List.cons.injEq] at hb
    rw [← hb.1]
    rfl

/-- Behind the whole digits, a fraction and an exponent are read if they are there. -/
theorem scanFraction_fractionText {l : Literal} (hnone : l.fraction = [] ∧ l.exponent = none)
    {fraction : List ℕ} (hfraction : ∀ d ∈ fraction, d < 10) {exponent : Option (Bool × List ℕ)}
    (hexponent : ∀ negative digits, exponent = some (negative, digits) →
      digits ≠ [] ∧ ∀ d ∈ digits, d < 10) {rest : List UInt8} (h : Delimited rest) :
    scanFraction l (encode (fractionText fraction ++ exponentText exponent) ++ rest) =
      (.number { l with fraction := fraction, exponent := exponent }, rest) := by
  have hfollows := not_digit_exponentText exponent h
  rw [encode_append, List.append_assoc, fractionText]
  split
  case isTrue hf =>
    have hscan := scanExponent_exponentText hnone.2 hexponent h
    rw [encode_nil, List.nil_append, hf, ← hnone.1, ← hscan]
    cases hbytes : encode (exponentText exponent) ++ rest with
    | nil => rfl
    | cons b tail => rw [scanFraction, if_neg (hfollows b tail hbytes).2]
  case isFalse hf =>
    have hempty : fraction.isEmpty = false := by simpa using hf
    have hdigits := scanDigits_digits hfraction fun b tail hb => (hfollows b tail hb).1
    rw [encode_cons_of_lt (by decide), List.cons_append, scanFraction, if_pos rfl, hdigits]
    simp only [hempty, Bool.false_eq_true, if_false]
    exact scanExponent_exponentText (l := { l with fraction := fraction }) hnone.2 hexponent h

theorem scanNumber_literal {l : Literal} (hl : l.IsProper) {rest : List UInt8}
    (h : Delimited rest) :
    scanNumber l.negative (encode (l.whole.map Nat.digitChar ++
      (fractionText l.fraction ++ exponentText l.exponent)) ++ rest) = (.number l, rest) := by
  have hdigits := scanDigits_digits hl.whole_lt (not_digit_fractionText l.fraction l.exponent h)
  rw [encode_append, List.append_assoc]
  simp only [scanNumber, hdigits]
  split
  case h_1 hwhole => exact absurd hwhole hl.whole_ne
  case h_2 d digits hwhole => exact absurd (hl.leading _ hwhole) (by simp)
  case h_3 => exact scanFraction_fractionText ⟨rfl, rfl⟩ hl.fraction_lt hl.exponent h

/-- The scanner reads a proper literal up to the byte that delimits it. -/
theorem scanToken_literal {l : Literal} (hl : l.IsProper) {rest : List UInt8} (h : Delimited rest) :
    ∃ b bytes, encode l.text ++ rest = b :: bytes ∧ isSpaceByte b = false ∧
      scanToken b bytes = (.number l, rest) := by
  have hscan := scanNumber_literal hl h
  rw [Literal.text]
  cases hn : l.negative with
  | true =>
    rw [hn] at hscan
    refine ⟨byteOf '-', _, ?_, rfl, hscan⟩
    rw [if_pos rfl, List.singleton_append, encode_cons_of_lt (by decide), List.cons_append]
  | false =>
    rw [hn] at hscan
    obtain ⟨d, bytes, hd, hbytes⟩ := head_digits hl.whole_ne hl.whole_lt
      (encode (fractionText l.fraction ++ exponentText l.exponent) ++ rest)
    rw [encode_append, List.append_assoc, hbytes] at hscan
    refine ⟨byteOf (Nat.digitChar d), bytes, ?_, ?_, ?_⟩
    · rw [if_neg (by simp), List.nil_append, encode_append, List.append_assoc, hbytes]
    · interval_cases d <;> rfl
    · rw [← hscan]
      interval_cases d <;> rfl

def layoutLiteral (d : Scientific) : Literal :=
  let digits := digitsOf d.digits
  let lead : Int := d.exponent + digits.length - 1
  if d.digits = 0 then ⟨false, [0], [0], none⟩
  else if 0 ≤ lead ∧ lead < 16 then
    let before := lead.toNat + 1
    if digits.length ≤ before then
      ⟨false, digits ++ List.replicate (before - digits.length) 0, [0], none⟩
    else ⟨false, digits.take before, digits.drop before, none⟩
  else if -5 ≤ lead ∧ lead < 0 then
    ⟨false, [0], List.replicate (-lead - 1).toNat 0 ++ digits, none⟩
  else ⟨false, digits.take 1, digits.drop 1, some (decide (lead < 0), digitsOf lead.natAbs)⟩

/-- The literal that a number is written as. -/
def Number.literal : Number → Literal
  | .whole n => ⟨decide (n < 0), digitsOf n.natAbs, [], none⟩
  | .real x => { layoutLiteral (shortest x) with negative := x.negative }

theorem layoutLiteral_negative (d : Scientific) : (layoutLiteral d).negative = false := by
  unfold layoutLiteral
  simp only
  split
  · rfl
  split
  · split <;> rfl
  split <;> rfl

theorem text_layoutLiteral (d : Scientific) : (layoutLiteral d).text = layout d := by
  have hne := digitsOf_ne_nil d.digits
  unfold layoutLiteral layout
  simp only [← map_digitChar_digitsOf, List.length_map]
  generalize digitsOf d.digits = digits at hne
  generalize d.exponent + (digits.length : Int) - 1 = lead
  by_cases hzero : d.digits = 0
  · rw [if_pos hzero, if_pos hzero]
    rfl
  rw [if_neg hzero, if_neg hzero]
  split
  · split
    · simp [Literal.text, fractionText, exponentText, Nat.digitChar]
    case isFalse hbefore =>
      have hdrop : digits.drop (lead.toNat + 1) ≠ [] := by
        simpa using hbefore
      simp only [Literal.text, fractionText, hdrop, exponentText, Bool.false_eq_true, if_false,
        List.nil_append, List.append_nil, List.map_take, List.map_drop]
  split
  · have hfraction : List.replicate (-lead - 1).toNat 0 ++ digits ≠ [] := by
      simp [hne]
    simp only [Literal.text, fractionText, hfraction, exponentText, Bool.false_eq_true, if_false,
      List.nil_append, List.append_nil, List.map_append, List.map_replicate]
    rfl
  · obtain ⟨first, rest, rfl⟩ := List.exists_cons_of_ne_nil hne
    cases rest with
    | nil => simp [Literal.text, fractionText, exponentText, map_digitChar_digitsOf]
    | cons second rest => simp [Literal.text, fractionText, exponentText, map_digitChar_digitsOf]

theorem isProper_layoutLiteral (d : Scientific) : (layoutLiteral d).IsProper := by
  unfold layoutLiteral
  simp only
  by_cases hzero : d.digits = 0
  · rw [if_pos hzero]
    exact ⟨by simp, by simp, by simp, by simp, by simp⟩
  rw [if_neg hzero]
  have hlt : ∀ x ∈ digitsOf d.digits, x < 10 := fun x hx => lt_of_mem_digitsOf hx
  obtain ⟨first, rest, hdigits⟩ := List.exists_cons_of_ne_nil (digitsOf_ne_nil d.digits)
  have hfirst : first ≠ 0 := by
    rintro rfl
    exact digitsOf_ne_zero_cons (Nat.pos_of_ne_zero hzero) rest hdigits
  rw [hdigits] at hlt ⊢
  generalize d.exponent + ((first :: rest).length : Int) - 1 = lead
  split
  · split
    · refine ⟨by simp, by simp [hfirst], fun x hx => ?_, by simp, by simp⟩
      rcases List.mem_append.1 hx with hx | hx
      · exact hlt x hx
      · rw [List.eq_of_mem_replicate hx]
        decide
    · refine ⟨by simp, by simp [hfirst], fun x hx => hlt x (List.mem_of_mem_take hx),
        fun x hx => hlt x (List.mem_of_mem_drop hx), by simp⟩
  split
  · refine ⟨by simp, by simp, by simp, fun x hx => ?_, by simp⟩
    rcases List.mem_append.1 hx with hx | hx
    · rw [List.eq_of_mem_replicate hx]
      decide
    · exact hlt x hx
  · refine ⟨by simp, by simp, fun x hx => hlt x (List.mem_of_mem_take hx),
      fun x hx => hlt x (List.mem_of_mem_drop hx), fun negative digits he => ?_⟩
    simp only [Option.some.injEq, Prod.mk.injEq] at he
    rw [← he.2]
    exact ⟨digitsOf_ne_nil _, fun x hx => lt_of_mem_digitsOf hx⟩

theorem text_literal (n : Number) : n.literal.text = n.text := by
  cases n with
  | whole n =>
    by_cases hn : n < 0
    · simp [Number.literal, Number.text, intDigits, Literal.text, fractionText, exponentText, hn,
        map_digitChar_digitsOf]
    · simp [Number.literal, Number.text, intDigits, Literal.text, fractionText, exponentText, hn,
        map_digitChar_digitsOf]
  | real x =>
    have htext := text_layoutLiteral (shortest x)
    rw [Literal.text, layoutLiteral_negative, if_neg (by simp), List.nil_append] at htext
    rw [Number.literal, Number.text, realText, ← htext]
    cases hx : x.negative with
    | true => rfl
    | false => rfl

theorem isProper_literal (n : Number) : n.literal.IsProper := by
  cases n with
  | whole n =>
    exact ⟨digitsOf_ne_nil _, fun rest h => eq_nil_of_digitsOf h, fun d h => lt_of_mem_digitsOf h,
      by simp [Number.literal], by simp [Number.literal]⟩
  | real x =>
    obtain ⟨hne, hleading, hwhole, hfraction, hexponent⟩ := isProper_layoutLiteral (shortest x)
    exact ⟨hne, hleading, hwhole, hfraction, hexponent⟩

end ReleaseGate.Json
