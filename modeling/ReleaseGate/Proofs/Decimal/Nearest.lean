import ReleaseGate.Proofs.Decimal.Bounds

/-!
# Rounding depends on the quotient alone

A quotient determines the unit of the last place that it is rounded to, and its nearest multiple of
that unit. So equal quotients are rounded to one number, and naturals below `2 ^ 53` are kept.
-/
namespace ReleaseGate.Decimal

/-- The natural that a rational is rounded to, a tie going to the even one. -/
structure IsNearest (q : ℚ) (n : ℕ) : Prop where
  le : (n : ℚ) - 1 / 2 ≤ q
  ge : q ≤ n + 1 / 2
  even : q = n - 1 / 2 ∨ q = n + 1 / 2 → n % 2 = 0

theorem IsNearest.le_of {q : ℚ} {m n : ℕ} (hm : IsNearest q m) (hn : IsNearest q n) : m ≤ n := by
  by_contra hlt
  have hsucc : (n : ℚ) + 1 ≤ m := by exact_mod_cast Nat.not_le.1 hlt
  have hle := hm.le
  have hge := hn.ge
  -- Both are as far as can be, on two sides.
  have heq : (m : ℚ) = (n + 1 : ℕ) := by
    push_cast
    linarith
  have hm0 := hm.even (.inl (by linarith))
  have hn0 := hn.even (.inr (by linarith))
  have hnext : m = n + 1 := by exact_mod_cast heq
  omega

theorem IsNearest.unique {q : ℚ} {m n : ℕ} (hm : IsNearest q m) (hn : IsNearest q n) : m = n :=
  le_antisymm (hm.le_of hn) (hn.le_of hm)

theorem isNearest_natCast (n : ℕ) : IsNearest n n where
  le := by linarith
  ge := by linarith
  even := by
    rintro (h | h)
    · linarith
    · linarith

namespace Binary64

/-- Being nearest to a quotient, in naturals. -/
theorem isNearest_div {num den n : ℕ} (hden : 0 < den) (hle : 2 * (den * n) ≤ 2 * num + den)
    (hge : 2 * num ≤ 2 * (den * n) + den)
    (heven : 2 * (den * n) = 2 * num + den ∨ 2 * num = 2 * (den * n) + den → n % 2 = 0) :
    IsNearest (num / den) n := by
  have hpos : (0 : ℚ) < den := by exact_mod_cast hden
  have hle' : (2 : ℚ) * (den * n) ≤ 2 * num + den := by exact_mod_cast hle
  have hge' : (2 : ℚ) * num ≤ 2 * (den * n) + den := by exact_mod_cast hge
  refine ⟨?_, ?_, fun htie => heven ?_⟩
  · rw [le_div_iff₀ hpos]
    linarith
  · rw [div_le_iff₀ hpos]
    linarith
  · simp only [div_eq_iff hpos.ne'] at htie
    refine htie.imp (fun h => ?_) fun h => ?_
    · have heq : (2 : ℚ) * (den * n) = 2 * num + den := by linarith
      exact_mod_cast heq
    · have heq : (2 : ℚ) * num = 2 * (den * n) + den := by linarith
      exact_mod_cast heq

theorem isNearest_divideEven (num : ℕ) {den : ℕ} (hden : 0 < den) :
    IsNearest (num / den) (divideEven num den) := by
  have hrest := Nat.div_add_mod num den
  have hlt := Nat.mod_lt num hden
  unfold divideEven
  simp only
  split
  case isTrue h => exact isNearest_div hden (by omega) (by omega) (by omega)
  case isFalse h =>
    have hsucc : den * (num / den + 1) = den * (num / den) + den := Nat.mul_succ _ _
    exact isNearest_div hden (by omega) (by omega) (by omega)

theorem scaled_lt_iff (num : ℕ) {den n : ℕ} (hden : 0 < den) (e : ℤ) :
    num <<< (-e).toNat / den <<< e.toNat < n ↔ (num : ℚ) / den < n * 2 ^ e := by
  have hscaled : 0 < den <<< e.toNat := by
    rw [Nat.shiftLeft_eq]
    positivity
  have hscaled' : (0 : ℚ) < (den <<< e.toNat : ℕ) := by exact_mod_cast hscaled
  rw [Nat.div_lt_iff_lt_mul hscaled, ← div_lt_iff₀ (by positivity : (0 : ℚ) < 2 ^ e),
    ← scaled_div, div_lt_iff₀ hscaled']
  exact_mod_cast Iff.rfl

/-- The logarithms give a quotient to within a factor of two on each side. -/
theorem two_zpow_lt_div {num den : ℕ} (hnum : num ≠ 0) (hden : 0 < den) :
    (2 : ℚ) ^ ((num.log2 : ℤ) - den.log2 - 1) < num / den := by
  have hpos : (0 : ℚ) < den := by exact_mod_cast hden
  have hlt : (den : ℚ) < 2 ^ (den.log2 + 1 : ℤ) := by
    exact_mod_cast Nat.lt_log2_self (n := den)
  rw [lt_div_iff₀ hpos]
  calc (2 : ℚ) ^ ((num.log2 : ℤ) - den.log2 - 1) * den
      < 2 ^ ((num.log2 : ℤ) - den.log2 - 1) * 2 ^ (den.log2 + 1 : ℤ) := by gcongr
    _ = 2 ^ num.log2 := by
        rw [← zpow_add₀ two_ne_zero, ← zpow_natCast]
        congr 1
        omega
    _ ≤ num := by exact_mod_cast Nat.log2_self_le hnum

theorem div_lt_two_zpow (num : ℕ) {den : ℕ} (hden : 0 < den) :
    (num : ℚ) / den < 2 ^ ((num.log2 : ℤ) - den.log2 + 1) := by
  have hpos : (0 : ℚ) < den := by exact_mod_cast hden
  have hle : (2 : ℚ) ^ den.log2 ≤ den := by exact_mod_cast Nat.log2_self_le hden.ne'
  rw [div_lt_iff₀ hpos]
  calc (num : ℚ) < 2 ^ (num.log2 + 1) := by exact_mod_cast Nat.lt_log2_self
    _ = 2 ^ ((num.log2 : ℤ) - den.log2 + 1) * 2 ^ den.log2 := by
        rw [← zpow_natCast, ← zpow_natCast, ← zpow_add₀ two_ne_zero]
        congr 1
        omega
    _ ≤ 2 ^ ((num.log2 : ℤ) - den.log2 + 1) * den := by gcongr

/-- The exponent of the unit that a rational is rounded to: it has 53 bits, unless the unit is the
least one. -/
structure IsUnit (q : ℚ) (e : ℤ) : Prop where
  least : -1074 ≤ e
  lt : q < 2 ^ 53 * 2 ^ e
  le : -1074 < e → 2 ^ 52 * 2 ^ e ≤ q

theorem IsUnit.le_of {q : ℚ} {e f : ℤ} (he : IsUnit q e) (hf : IsUnit q f) : e ≤ f := by
  by_contra hlt
  have hleast := hf.least
  have hstep : (2 : ℚ) * 2 ^ f ≤ 2 ^ e := by
    rw [mul_comm, ← zpow_add_one₀ two_ne_zero]
    exact zpow_le_zpow_right₀ one_le_two (by omega)
  have hlow := he.le (by omega)
  have hhigh := hf.lt
  linarith

theorem IsUnit.unique {q : ℚ} {e f : ℤ} (he : IsUnit q e) (hf : IsUnit q f) : e = f :=
  le_antisymm (he.le_of hf) (hf.le_of he)

theorem isUnit_roundingExponent {num den : ℕ} (hnum : num ≠ 0) (hden : 0 < den) :
    IsUnit (num / den) (roundingExponent num den) := by
  have hlow := two_zpow_lt_div hnum hden
  have hhigh := div_lt_two_zpow num hden
  have hshift : ∀ (n : ℕ) (e : ℤ), (2 : ℚ) ^ n * 2 ^ e = 2 ^ (n + e) := fun n e => by
    rw [zpow_add₀ two_ne_zero, zpow_natCast]
  unfold roundingExponent
  simp only [Nat.shiftLeft_eq 1, one_mul, scaled_lt_iff num hden, Nat.cast_pow, Nat.cast_ofNat]
  generalize hmax : max (-1074) ((num.log2 : ℤ) - den.log2 - 53) = low
  split
  case isTrue hlt =>
    refine ⟨by omega, hlt, fun hleast => ?_⟩
    rw [hshift]
    exact (zpow_le_zpow_right₀ one_le_two (by omega)).trans hlow.le
  case isFalse hge =>
    refine ⟨by omega, ?_, fun _ => ?_⟩
    · rw [hshift]
      exact hhigh.trans_le (zpow_le_zpow_right₀ one_le_two (by omega))
    · rw [zpow_add_one₀ two_ne_zero]
      linarith

theorem isNearest_roundedMantissa (num : ℕ) {den : ℕ} (hden : 0 < den) :
    IsNearest (num / den / 2 ^ roundingExponent num den) (roundedMantissa num den) := by
  rw [← scaled_div]
  refine isNearest_divideEven _ ?_
  rw [Nat.shiftLeft_eq]
  positivity

/-- Equal quotients are rounded to one number. -/
theorem ofQuotient_congr {a b c d : ℕ} (hb : 0 < b) (hd : 0 < d)
    (h : (a : ℚ) / b = c / d) : ofQuotient a b = ofQuotient c d := by
  have hmul : a * d = c * b := by
    rw [div_eq_div_iff (by positivity) (by positivity)] at h
    exact_mod_cast h
  by_cases ha : a = 0
  · have hc : c = 0 := by
      rw [ha, zero_mul, eq_comm, Nat.mul_eq_zero] at hmul
      exact hmul.resolve_right hb.ne'
    rw [ofQuotient, ofQuotient, if_pos ha, if_pos hc]
  · have hc : c ≠ 0 := by
      rintro rfl
      rw [zero_mul, Nat.mul_eq_zero] at hmul
      exact hmul.elim ha hd.ne'
    have hexponent : roundingExponent a b = roundingExponent c d :=
      (isUnit_roundingExponent ha hb).unique (h ▸ isUnit_roundingExponent hc hd)
    have hmantissa : roundedMantissa a b = roundedMantissa c d := by
      refine (isNearest_roundedMantissa a hb).unique ?_
      rw [h, hexponent]
      exact isNearest_roundedMantissa c hd
    rw [ofQuotient_eq ha, ofQuotient_eq hc, rounded, rounded, hexponent, hmantissa]

theorem rounded_of_ofQuotient {num den : ℕ} {x : Binary64} (hnum : num ≠ 0)
    (h : ofQuotient num den = some x) : x = rounded num den := by
  rw [ofQuotient_eq hnum] at h
  split at h
  · simp at h
  · exact (Option.some.inj h).symm

theorem negative_of_ofQuotient {num den : ℕ} {x : Binary64} (h : ofQuotient num den = some x) :
    x.negative = false := by
  by_cases hnum : num = 0
  · rw [ofQuotient, if_pos hnum] at h
    exact Option.some.inj h ▸ rfl
  · rw [rounded_of_ofQuotient hnum h, rounded]
    split <;> rfl

theorem map_withSign_ofQuotient (num den : ℕ) :
    (ofQuotient num den).map (withSign false) = ofQuotient num den := by
  cases h : ofQuotient num den with
  | none => rfl
  | some x =>
    rw [Option.map_some, withSign, ← negative_of_ofQuotient h]

/-- Rounding moves a quotient by half a unit at most. -/
theorem abs_sub_toRat_rounded_le (num : ℕ) {den : ℕ} (hden : 0 < den) :
    |(num : ℚ) / den - (rounded num den).toRat| ≤ 2 ^ roundingExponent num den / 2 := by
  have hnear := isNearest_roundedMantissa num hden
  rw [toRat_rounded]
  generalize roundingExponent num den = e at hnear
  have hpos : (0 : ℚ) < 2 ^ e := by positivity
  have hle := hnear.le
  have hge := hnear.ge
  rw [le_div_iff₀ hpos] at hle
  rw [div_le_iff₀ hpos] at hge
  rw [abs_le]
  constructor
  · linarith
  · linarith

/-- Naturals of 53 bits are kept. -/
theorem toRat_ofNat? {n : ℕ} (h : n < 2 ^ 53) :
    ∃ x, ofNat? n = some x ∧ x.toRat = n ∧ x.negative = false := by
  obtain ⟨x, hx, -⟩ := ofNat?_lt h (by decide)
  refine ⟨x, hx, ?_, negative_of_ofQuotient hx⟩
  by_cases hn : n = 0
  · subst hn
    exact Option.some.inj hx ▸ toRat_zero
  have hunit := isUnit_roundingExponent hn one_pos
  have hnear := isNearest_roundedMantissa n one_pos
  rw [rounded_of_ofQuotient hn hx, toRat_rounded]
  rw [Nat.cast_one, div_one] at hunit hnear
  generalize roundingExponent n 1 = e at hunit hnear
  generalize roundedMantissa n 1 = m at hnear
  have he : e ≤ 0 := by
    by_contra hpos
    have hle := hunit.le (by omega)
    have htwo : (2 : ℚ) ^ (1 : ℤ) ≤ 2 ^ e := zpow_le_zpow_right₀ one_le_two (by omega)
    have hlt : (n : ℚ) < 2 ^ 53 := by exact_mod_cast h
    linarith
  obtain ⟨k, hk⟩ := Int.eq_ofNat_of_zero_le (neg_nonneg.2 he)
  obtain rfl : e = -(k : ℤ) := by omega
  have hscaled : (n : ℚ) / 2 ^ (-(k : ℤ)) = (n * 2 ^ k : ℕ) := by
    rw [zpow_neg, div_inv_eq_mul, zpow_natCast]
    push_cast
    rfl
  rw [hscaled] at hnear
  rw [hnear.unique (isNearest_natCast _), ← hscaled]
  field_simp

/-- Dividing naturals of 53 bits rounds once. -/
theorem div_ofNat? {a b : ℕ} (ha : a < 2 ^ 53) (hb : b < 2 ^ 53) (hpos : 0 < b) :
    ∃ x y, ofNat? a = some x ∧ ofNat? b = some y ∧ x.div y = ofQuotient a b := by
  obtain ⟨x, hx, hxa, hxs⟩ := toRat_ofNat? ha
  obtain ⟨y, hy, hyb, hys⟩ := toRat_ofNat? hb
  refine ⟨x, y, hx, hy, ?_⟩
  have hb' : 0 < y.toRat := by
    rw [hyb]
    exact_mod_cast hpos
  have hquotient := div_numerators x y
  rw [hxa, hyb] at hquotient
  rw [div, hxs, hys, bne_self_eq_false, map_withSign_ofQuotient]
  exact ofQuotient_congr (Nat.mul_pos x.denominator_pos (numerator_pos hb')) hpos hquotient

theorem IsUnit.two_zpow_le {q : ℚ} {e : ℤ} (h : IsUnit q e) (hq : 1 ≤ q) : 2 ^ e ≤ q := by
  have hpos : (0 : ℚ) < 2 ^ e := by positivity
  rcases le_or_gt e (-1074) with he | he
  · calc (2 : ℚ) ^ e ≤ 2 ^ (0 : ℤ) := zpow_le_zpow_right₀ one_le_two (by omega)
      _ ≤ q := by rwa [zpow_zero]
  · linarith [h.le he]

/-- Where the unit is no greater than the quotient, rounding at most doubles it. -/
theorem toRat_le_two_mul {num den : ℕ} {x : Binary64} (hden : 0 < den)
    (h : ofQuotient num den = some x) (hone : (num : ℚ) / den = 0 ∨ (1 : ℚ) ≤ num / den) :
    x.toRat ≤ 2 * (num / den) := by
  have hden' : (den : ℚ) ≠ 0 := by exact_mod_cast hden.ne'
  by_cases hnum : num = 0
  · subst hnum
    obtain rfl := Option.some.inj h
    simp [toRat_zero]
  · have hnum' : (num : ℚ) ≠ 0 := by exact_mod_cast hnum
    obtain rfl := rounded_of_ofQuotient hnum h
    have hunit := (isUnit_roundingExponent hnum hden).two_zpow_le
      (hone.resolve_left (div_ne_zero hnum' hden'))
    have hclose := abs_le.1 (abs_sub_toRat_rounded_le num hden)
    linarith

theorem toRat_mul_le_two_mul {x y z : Binary64} (h : x.mul y = some z)
    (hone : x.toRat * y.toRat = 0 ∨ 1 ≤ x.toRat * y.toRat) :
    z.toRat ≤ 2 * (x.toRat * y.toRat) := by
  obtain ⟨w, hw, rfl⟩ := Option.map_eq_some_iff.1 h
  rw [← mul_numerators] at hone
  have hle := toRat_le_two_mul (Nat.mul_pos x.denominator_pos y.denominator_pos) hw hone
  rwa [mul_numerators] at hle

theorem le_two_mul_toRat {num den : ℕ} {x : Binary64} (hden : 0 < den)
    (h : ofQuotient num den = some x) (hone : (1 : ℚ) ≤ num / den) :
    (num : ℚ) / den ≤ 2 * x.toRat := by
  have hnum : num ≠ 0 := by
    rintro rfl
    norm_num at hone
  obtain rfl := rounded_of_ofQuotient hnum h
  have hunit := (isUnit_roundingExponent hnum hden).two_zpow_le hone
  have hclose := abs_le.1 (abs_sub_toRat_rounded_le num hden)
  linarith

end Binary64

end ReleaseGate.Decimal
