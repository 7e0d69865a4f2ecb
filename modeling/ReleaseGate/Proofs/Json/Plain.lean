import ReleaseGate.Proofs.Decimal.Grid
import ReleaseGate.Proofs.Json.InRange

/-!
# Numbers without an exponent

A decimal that is written without an exponent is read as one natural, divided by a power of ten. If
both have at most 53 bits, that division is all the rounding there is.
-/
namespace ReleaseGate.Json

open Decimal Binary64

theorem digitsValue_concat (digits : List ℕ) (d : ℕ) :
    digitsValue (digits ++ [d]) = digitsValue digits * 10 + d := by
  simp [digitsValue]

theorem digitsValue_append (a b : List ℕ) :
    digitsValue (a ++ b) = digitsValue a * 10 ^ b.length + digitsValue b := by
  induction b using List.reverseRecOn with
  | nil => simp [digitsValue]
  | append_singleton b d ih =>
    rw [← List.append_assoc, digitsValue_concat, digitsValue_concat, ih, List.length_append,
      List.length_singleton]
    ring

theorem digitsValue_replicate_zero (n : ℕ) : digitsValue (List.replicate n 0) = 0 := by
  induction n with
  | zero => rfl
  | succ n ih => rw [List.replicate_succ', digitsValue_concat, ih]

/-- A literal with a point and without an exponent. -/
structure Literal.IsPlain (l : Literal) (q : ℚ) : Prop where
  exponent : l.exponent = none
  fraction : l.fraction ≠ []
  value : (digitsValue (l.whole ++ l.fraction) : ℚ) = q * 10 ^ l.fraction.length

theorem lt_exponent_add_length {d : Scientific} {k : ℤ} (h : (10 : ℚ) ^ k ≤ d.toRat) :
    k < d.exponent + (digitsOf d.digits).length := by
  have hlt : d.digits < 10 ^ (digitsOf d.digits).length := by
    have hlt := foldl_digits_lt (fun x hx => lt_of_mem_digitsOf (n := d.digits) hx) 0
    have hvalue := digitsValue_digitsOf d.digits
    rw [digitsValue] at hvalue
    rwa [hvalue, Nat.zero_add, Nat.one_mul] at hlt
  rw [← zpow_lt_zpow_iff_right₀ (by norm_num : (1 : ℚ) < 10), add_comm, zpow_add₀ (by norm_num),
    zpow_natCast]
  refine h.trans_lt ?_
  rw [Scientific.toRat]
  gcongr
  exact_mod_cast hlt

/-- Decimals from `0.00001` to below `10 ^ 16` are written without an exponent, and no finer than
they are. -/
theorem isPlain_layoutLiteral {d : Scientific} (hlow : (10 : ℚ) ^ (-5 : ℤ) ≤ d.toRat)
    (hhigh : d.toRat < 10 ^ 16) :
    (layoutLiteral d).IsPlain d.toRat ∧
      ((layoutLiteral d).fraction.length : ℤ) ≤ max 1 (-d.exponent) := by
  have hzero : d.digits ≠ 0 := by
    intro hzero
    rw [Scientific.toRat, hzero, Nat.cast_zero, zero_mul] at hlow
    exact absurd hlow (by norm_num)
  have hlead := lt_exponent_add_length hlow
  have hlead' := exponent_add_length_le hzero hhigh
  have hvalue := digitsValue_digitsOf d.digits
  have hne := digitsOf_ne_nil d.digits
  unfold layoutLiteral
  simp only [if_neg hzero]
  rw [Scientific.toRat]
  generalize digitsOf d.digits = digits at *
  generalize d.exponent = e at *
  split
  case isTrue hpos =>
    split
    case isTrue hbefore =>
      obtain ⟨n, rfl⟩ := Int.eq_ofNat_of_zero_le (a := e) (by omega)
      have hzeros : (n + digits.length - 1 : ℤ).toNat + 1 - digits.length = n := by omega
      refine ⟨⟨rfl, by simp, ?_⟩, ?_⟩
      · rw [hzeros, digitsValue_concat, digitsValue_append, digitsValue_replicate_zero, hvalue,
          List.length_replicate, List.length_singleton, zpow_natCast]
        push_cast
        ring
      · simp
    case isFalse hbefore =>
      obtain ⟨n, hn⟩ := Int.eq_ofNat_of_zero_le (a := -e) (by omega)
      obtain rfl : e = -(n : ℤ) := by omega
      have hplaces : (digits.drop ((-n + digits.length - 1 : ℤ).toNat + 1)).length = n := by
        rw [List.length_drop]
        omega
      refine ⟨⟨rfl, ?_, ?_⟩, ?_⟩
      · rw [← List.length_pos_iff, hplaces]
        omega
      · simp only [hplaces]
        rw [List.take_append_drop, hvalue, zpow_neg, zpow_natCast]
        field_simp
      · simp only [hplaces]
        omega
  case isFalse hneg =>
    rw [if_pos (by omega)]
    obtain ⟨n, hn⟩ := Int.eq_ofNat_of_zero_le (a := -e) (by omega)
    obtain rfl : e = -(n : ℤ) := by omega
    have hplaces : (List.replicate (-(-n + digits.length - 1 : ℤ) - 1).toNat 0 ++ digits).length =
        n := by
      rw [List.length_append, List.length_replicate]
      omega
    refine ⟨⟨rfl, ?_, ?_⟩, ?_⟩
    · simp [hne]
    · simp only [hplaces]
      rw [digitsValue_append, digitsValue_append, digitsValue_replicate_zero, hvalue, zpow_neg,
        zpow_natCast]
      have hhead : digitsValue [0] = 0 := rfl
      rw [hhead]
      push_cast
      field_simp
      ring
    · simp only [hplaces]
      omega

/-- Digits that fit a word are all read, those behind the point after those before it. -/
theorem Literal.toReal?_of_isPlain {l : Literal} {q : ℚ} (h : l.IsPlain q)
    (hle : digitsValue (l.whole ++ l.fraction) ≤ maxWord) :
    l.toReal? = ((ofNat? (digitsValue (l.whole ++ l.fraction))).bind fun x =>
      scale x (-l.fraction.length) 4).map (withSign l.negative) := by
  have hsplit : digitsValue (l.whole ++ l.fraction) =
      l.fraction.foldl (fun n d => n * 10 + d) (l.whole.foldl (fun n d => n * 10 + d) 0) := by
    rw [digitsValue, List.foldl_append]
  rw [hsplit] at hle ⊢
  have hwhole := gather_of_le ((le_foldl_digits l.fraction _).trans hle)
  have hfraction := gather_of_le hle
  rw [Literal.toReal?, hwhole]
  simp only [hfraction, h.exponent, Option.bind_eq_bind, Option.pure_def, Option.map_eq_bind,
    Option.bind_assoc]
  simp

theorem powerOfTen_eq {n : ℕ} {y : Binary64} (h : ofNat? (10 ^ n) = some y) : powerOfTen n = y := by
  rw [powerOfTen, Nat.pow_eq, h, Option.getD_some]

/-- A significand and a power of ten of 53 bits are divided with a single rounding. -/
theorem scale_neg {significand places : ℕ} (hsignificand : significand < 2 ^ 53)
    (hzero : significand ≠ 0) (hplaces : 0 < places) (hpower : places ≤ 15) (steps : ℕ) :
    ((ofNat? significand).bind fun x => scale x (-places) (steps + 1)) =
      ofQuotient significand (10 ^ places) := by
  have hten : 10 ^ places < 2 ^ 53 :=
    (Nat.pow_le_pow_right (by decide) hpower).trans_lt (by decide)
  obtain ⟨x, y, hx, hy, hdiv⟩ := div_ofNat? hsignificand hten (by positivity)
  have hmantissa : x.mantissa ≠ 0 := by
    intro hm
    have hone := one_le_ofNat? (Nat.pos_of_ne_zero hzero) hx
    rw [toRat, hm, Nat.cast_zero, zero_mul] at hone
    exact absurd hone (by norm_num)
  rw [hx, Option.bind_some, scale, if_neg hmantissa, if_neg (by omega), if_neg (by omega),
    if_pos (by omega), neg_neg, Int.toNat_natCast, powerOfTen_eq hy, hdiv]

/-- A literal without an exponent is rounded once, if its significand has 53 bits. -/
theorem Literal.toNumber?_of_isPlain {l : Literal} {q : ℚ} (h : l.IsPlain q)
    (hnegative : l.negative = false) (hplaces : l.fraction.length ≤ 15) (hpos : 0 < q)
    (hvalue : q * 10 ^ l.fraction.length < 2 ^ 53) {num den : ℕ} (hden : 0 < den)
    (hq : q = num / den) : l.toNumber? = (ofQuotient num den).map .real := by
  have hlt : digitsValue (l.whole ++ l.fraction) < 2 ^ 53 := by
    rw [← h.value] at hvalue
    exact_mod_cast hvalue
  have hzero : digitsValue (l.whole ++ l.fraction) ≠ 0 := by
    intro hzero
    have hvalue := h.value
    rw [hzero, Nat.cast_zero] at hvalue
    have hne : q * 10 ^ l.fraction.length ≠ 0 := by positivity
    exact hne hvalue.symm
  have hquotient : ((digitsValue (l.whole ++ l.fraction) : ℕ) : ℚ) / (10 ^ l.fraction.length : ℕ) =
      num / den := by
    rw [h.value, ← hq]
    push_cast
    field_simp
  have hlength : 0 < l.fraction.length := List.length_pos_iff.2 h.fraction
  have hmax : 2 ^ 53 ≤ maxWord := by decide
  have hreal := Literal.toReal?_of_isPlain h (by omega)
  rw [scale_neg hlt hzero hlength hplaces, hnegative, map_withSign_ofQuotient,
    ofQuotient_congr (by positivity) hden hquotient] at hreal
  have hinteger : l.isInteger = false := by
    rw [Literal.isInteger, List.isEmpty_eq_false_iff.2 h.fraction, Bool.false_and]
  simp only [Literal.toNumber?, hinteger, hreal, Bool.false_and, Bool.false_eq_true, if_false]

/-- A moderate number of hundredths has a unit that is far finer than the tenth decimal place. -/
theorem roundingExponent_hundredths {n : ℕ} (hpos : 0 < n) (hn : n < 2 ^ 22) :
    roundingExponent n 100 ≤ -36 := by
  have hunit := isUnit_roundingExponent hpos.ne' (by decide : 0 < 100)
  have hlt : (n : ℚ) < 2 ^ 22 := by exact_mod_cast hn
  by_contra hgreat
  have hle := hunit.le (by omega)
  have hexponent : (2 : ℚ) ^ (-35 : ℤ) ≤ 2 ^ roundingExponent n 100 :=
    zpow_le_zpow_right₀ one_le_two (by omega)
  norm_num at hexponent
  push_cast at hle
  linarith

theorem toRat_hundredths {n : ℕ} {x : Binary64} (hpos : 0 < n) (hn : n < 2 ^ 22)
    (h : ofQuotient n 100 = some x) : 2 ^ (-7 : ℤ) ≤ x.toRat ∧ x.toRat < 2 ^ (17 : ℤ) := by
  obtain rfl := rounded_of_ofQuotient hpos.ne' h
  have hclose := abs_le.1 (abs_sub_toRat_rounded_le n (by decide : 0 < 100))
  have hunit : (2 : ℚ) ^ roundingExponent n 100 ≤ 2 ^ (-36 : ℤ) :=
    zpow_le_zpow_right₀ one_le_two (roundingExponent_hundredths hpos hn)
  have hone : (1 : ℚ) ≤ n := by exact_mod_cast hpos
  have hlt : (n : ℚ) < 2 ^ 22 := by exact_mod_cast hn
  norm_num at hunit hclose ⊢
  constructor
  · linarith
  · linarith

theorem onGrid_hundredths {n : ℕ} {x : Binary64} (hpos : 0 < n) (hn : n < 2 ^ 22)
    (h : ofQuotient n 100 = some x) (hx : x.mantissa ≠ 0) : OnGrid x n (-10) (-2) := by
  obtain rfl := rounded_of_ofQuotient hpos.ne' h
  have hexponent : (rounded n 100).exponent ≤ -35 :=
    (exponent_rounded_le n 100).trans (by have := roundingExponent_hundredths hpos hn; omega)
  have hvalue : (n : ℚ) * 10 ^ (-2 : ℤ) = n / (100 : ℕ) := by
    norm_num
    ring
  refine ⟨?_, ?_, by decide⟩
  · rw [hvalue]
    exact inInterval_rounded hpos.ne' (by decide) hx
  · calc (2 : ℚ) ^ (rounded n 100).exponent ≤ 2 ^ (-35 : ℤ) :=
          zpow_le_zpow_right₀ one_le_two hexponent
      _ < 10 ^ (-10 : ℤ) := by norm_num

/-- A moderate number of hundredths is written with its two places at most, and read back. -/
theorem toNumber?_hundredths {n : ℕ} {x : Binary64} (hn : n < 2 ^ 22)
    (h : ofQuotient n 100 = some x) : (Number.real x).literal.toNumber? = some (.real x) := by
  rcases Nat.eq_zero_or_pos n with rfl | hpos
  · obtain rfl := Option.some.inj h
    rfl
  obtain ⟨hlow, hhigh⟩ := toRat_hundredths hpos hn h
  have hx : x.mantissa ≠ 0 := by
    intro hm
    rw [toRat, hm, Nat.cast_zero, zero_mul] at hlow
    exact absurd hlow (by norm_num)
  obtain ⟨hmagnitude, hmagnitude'⟩ := magnitude_bounds hx hlow hhigh
  obtain ⟨hvalue, hfine⟩ :=
    (onGrid_hundredths hpos hn h hx).shortest_eq hx (by omega) (by omega)
  have hone : (1 : ℚ) ≤ n := by exact_mod_cast hpos
  have hlt : (n : ℚ) < 2 ^ 22 := by exact_mod_cast hn
  have hq : (shortest x).toRat = n / 100 := by
    rw [hvalue]
    norm_num
    ring
  obtain ⟨hplain, hplaces⟩ := isPlain_layoutLiteral (d := shortest x)
    (by rw [hq]; norm_num; linarith) (by rw [hq]; norm_num; linarith)
  have hnegative := negative_of_ofQuotient h
  have hliteral : (Number.real x).literal = layoutLiteral (shortest x) := by
    rw [Number.literal, hnegative, ← layoutLiteral_negative (shortest x)]
  have hpower : (10 : ℚ) ^ (layoutLiteral (shortest x)).fraction.length ≤ 10 ^ 10 :=
    pow_le_pow_right₀ (by norm_num) (by omega)
  have hsize : 0 < (shortest x).toRat := by
    rw [hq]
    positivity
  have hratio : (shortest x).toRat = (n : ℚ) / (100 : ℕ) := by
    rw [hq]
    norm_cast
  have hbits : (shortest x).toRat * 10 ^ (layoutLiteral (shortest x)).fraction.length < 2 ^ 53 :=
    calc (shortest x).toRat * 10 ^ (layoutLiteral (shortest x)).fraction.length
        ≤ n / 100 * 10 ^ 10 := by
          rw [hq]
          gcongr
      _ < 2 ^ 53 := by
          linarith
  rw [hliteral, Literal.toNumber?_of_isPlain hplain (layoutLiteral_negative _) (by omega) hsize
    hbits (by decide) hratio, h, Option.map_some]

end ReleaseGate.Json
