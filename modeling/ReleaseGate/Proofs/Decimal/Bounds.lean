import Mathlib.Algebra.Order.Field.Power
import Mathlib.Data.Nat.Cast.Order.Field
import Mathlib.Data.Nat.Log
import Mathlib.Data.Rat.Cast.Order
import Mathlib.Tactic.FieldSimp
import Mathlib.Tactic.Linarith
import Mathlib.Tactic.Positivity
import Mathlib.Tactic.Ring
import ReleaseGate.Decimal.Binary64

/-!
# How far rounding goes

Rounding moves a quotient by one unit of the last place at most. So the result of an operation is
below the power of two after one that bounds the exact result, and there is one as long as that
power is far from the greatest number.
-/
namespace ReleaseGate.Decimal.Binary64

/-- The magnitude. -/
def toRat (x : Binary64) : ℚ :=
  x.mantissa * 2 ^ x.exponent

theorem zpow_eq_div (b : ℚ) (e : ℤ) : b ^ e = b ^ e.toNat / b ^ (-e).toNat := by
  rcases le_total 0 e with h | h
  · obtain ⟨n, rfl⟩ := Int.eq_ofNat_of_zero_le h
    simp
  · obtain ⟨n, hn⟩ := Int.eq_ofNat_of_zero_le (neg_nonneg.2 h)
    obtain rfl : e = -(n : ℤ) := by omega
    simp

theorem toRat_eq_div (x : Binary64) : x.toRat = x.numerator / x.denominator := by
  rw [toRat, zpow_eq_div, numerator, denominator, Nat.shiftLeft_eq, Nat.shiftLeft_eq]
  push_cast
  ring

theorem denominator_pos (x : Binary64) : 0 < x.denominator := by
  rw [denominator, Nat.shiftLeft_eq]
  positivity

theorem toRat_nonneg (x : Binary64) : 0 ≤ x.toRat := by
  unfold toRat
  positivity

theorem toRat_zero : zero.toRat = 0 := by
  simp [toRat, zero]

theorem divideEven_le (num den : ℕ) : (divideEven num den : ℚ) ≤ num / den + 1 := by
  have hfloor : ((num / den : ℕ) : ℚ) ≤ num / den := Nat.cast_div_le
  unfold divideEven
  simp only
  split
  · linarith
  · push_cast
    linarith

theorem le_divideEven (num den : ℕ) : num / den ≤ divideEven num den := by
  unfold divideEven
  simp only
  split
  · exact le_rfl
  · exact Nat.le_succ _

/-- The exponent that a quotient is first rounded at. -/
def roundingExponent (num den : ℕ) : ℤ :=
  let low : ℤ := max (-1074) ((num.log2 : ℤ) - den.log2 - 53)
  if num <<< (-low).toNat / den <<< low.toNat < 1 <<< 53 then low else low + 1

/-- The mantissa of a quotient at that exponent. -/
def roundedMantissa (num den : ℕ) : ℕ :=
  let e := roundingExponent num den
  divideEven (num <<< (-e).toNat) (den <<< e.toNat)

/-- The number that a quotient is rounded to. A mantissa of 54 bits is halved. -/
def rounded (num den : ℕ) : Binary64 :=
  if roundedMantissa num den = 1 <<< 53 then ⟨false, 1 <<< 52, roundingExponent num den + 1⟩
  else ⟨false, roundedMantissa num den, roundingExponent num den⟩

theorem ofQuotient_eq {num den : ℕ} (hnum : num ≠ 0) :
    ofQuotient num den =
      if 971 < (rounded num den).exponent then none else some (rounded num den) := by
  rw [ofQuotient, if_neg hnum]
  rfl

theorem exponent_rounded_le (num den : ℕ) :
    (rounded num den).exponent ≤ roundingExponent num den + 1 := by
  unfold rounded
  split
  · exact le_rfl
  · exact (Int.le_add_one le_rfl)

theorem toRat_rounded (num den : ℕ) :
    (rounded num den).toRat = roundedMantissa num den * 2 ^ roundingExponent num den := by
  unfold rounded
  split
  case isTrue hm =>
    have htop : ((1 <<< 53 : ℕ) : ℚ) = 2 * (1 <<< 52 : ℕ) := by
      norm_num [Nat.shiftLeft_eq]
    rw [toRat, zpow_add_one₀ two_ne_zero, hm, htop]
    ring
  case isFalse => rfl

theorem scaled_div (num den : ℕ) (e : ℤ) :
    ((num <<< (-e).toNat : ℕ) : ℚ) / (den <<< e.toNat : ℕ) = num / den / 2 ^ e := by
  rw [zpow_eq_div 2 e, Nat.shiftLeft_eq, Nat.shiftLeft_eq]
  push_cast
  field_simp

theorem roundedMantissa_mul_le (num den : ℕ) :
    (roundedMantissa num den : ℚ) * 2 ^ roundingExponent num den ≤
      num / den + 2 ^ roundingExponent num den := by
  unfold roundedMantissa
  simp only
  generalize roundingExponent num den = e
  have hround := divideEven_le (num <<< (-e).toNat) (den <<< e.toNat)
  have hscaled : ((num <<< (-e).toNat : ℕ) : ℚ) / (den <<< e.toNat : ℕ) * 2 ^ e = num / den := by
    rw [scaled_div, div_mul_cancel₀ _ (by positivity)]
  calc (divideEven (num <<< (-e).toNat) (den <<< e.toNat) : ℚ) * 2 ^ e
      ≤ (((num <<< (-e).toNat : ℕ) : ℚ) / (den <<< e.toNat : ℕ) + 1) * 2 ^ e := by
        gcongr
    _ = num / den + 2 ^ e := by
        rw [add_mul, hscaled, one_mul]

theorem log2_le_of_lt {num den k : ℕ} (h : num < 2 ^ k * den) :
    num.log2 ≤ den.log2 + k := by
  by_cases hnum : num = 0
  · simp [hnum]
  have hden : den < 2 ^ (den.log2 + 1) := Nat.lt_log2_self
  have hlt : num < 2 ^ (den.log2 + k + 1) := by
    calc num < 2 ^ k * den := h
      _ ≤ 2 ^ k * 2 ^ (den.log2 + 1) := Nat.mul_le_mul_left _ hden.le
      _ = 2 ^ (den.log2 + k + 1) := by
        rw [← pow_add]
        congr 1
        omega
  have hlog := (Nat.log2_lt hnum).2 hlt
  omega

theorem roundingExponent_le {num den k : ℕ} (h : num < 2 ^ k * den) :
    roundingExponent num den ≤ max (-1073) ((k : ℤ) - 52) := by
  have hlog := log2_le_of_lt h
  unfold roundingExponent
  simp only
  split
  · omega
  · omega

/-- A quotient below a power of two is rounded to a number below the next one. -/
theorem ofQuotient_lt {num den k : ℕ} (hden : 0 < den) (h : (num : ℚ) / den < 2 ^ k)
    (hk : k ≤ 1000) : ∃ x, ofQuotient num den = some x ∧ x.toRat < 2 ^ (k + 1) := by
  by_cases hnum : num = 0
  · refine ⟨zero, by rw [ofQuotient, if_pos hnum], ?_⟩
    rw [toRat_zero]
    positivity
  have hlt : num < 2 ^ k * den := by
    rw [div_lt_iff₀ (by positivity)] at h
    exact_mod_cast h
  have hexponent := roundingExponent_le hlt
  have hsmall : ¬ 971 < (rounded num den).exponent := by
    have hle := exponent_rounded_le num den
    omega
  refine ⟨rounded num den, by rw [ofQuotient_eq hnum, if_neg hsmall], ?_⟩
  have hunit : (2 : ℚ) ^ roundingExponent num den ≤ 2 ^ k := by
    rw [← zpow_natCast]
    exact zpow_le_zpow_right₀ one_le_two (by omega)
  calc (rounded num den).toRat ≤ num / den + 2 ^ roundingExponent num den := by
        rw [toRat_rounded]
        exact roundedMantissa_mul_le num den
    _ < 2 ^ k + 2 ^ k := add_lt_add_of_lt_of_le h hunit
    _ = 2 ^ (k + 1) := by ring

theorem ofNat?_lt {n k : ℕ} (h : n < 2 ^ k) (hk : k ≤ 1000) :
    ∃ x, ofNat? n = some x ∧ x.toRat < 2 ^ (k + 1) := by
  refine ofQuotient_lt one_pos ?_ hk
  rw [Nat.cast_one, div_one]
  exact_mod_cast h

theorem mul_numerators (x y : Binary64) :
    ((x.numerator * y.numerator : ℕ) : ℚ) / (x.denominator * y.denominator : ℕ) =
      x.toRat * y.toRat := by
  rw [toRat_eq_div, toRat_eq_div, div_mul_div_comm]
  push_cast
  rfl

theorem mul_lt {x y : Binary64} {j k : ℕ} (hx : x.toRat < 2 ^ j) (hy : y.toRat < 2 ^ k)
    (hjk : j + k ≤ 1000) : ∃ z, x.mul y = some z ∧ z.toRat < 2 ^ (j + k + 1) := by
  have hlt : x.toRat * y.toRat < 2 ^ (j + k) := by
    rw [pow_add]
    exact mul_lt_mul'' hx hy x.toRat_nonneg y.toRat_nonneg
  obtain ⟨z, hz, hvalue⟩ := ofQuotient_lt
    (Nat.mul_pos x.denominator_pos y.denominator_pos) (mul_numerators x y ▸ hlt) hjk
  exact ⟨z.withSign (x.negative != y.negative), by rw [mul, hz]; rfl, hvalue⟩

theorem div_numerators (x y : Binary64) :
    ((x.numerator * y.denominator : ℕ) : ℚ) / (x.denominator * y.numerator : ℕ) =
      x.toRat / y.toRat := by
  rw [toRat_eq_div, toRat_eq_div, div_div_div_eq]
  push_cast
  rfl

theorem numerator_pos {x : Binary64} (h : 0 < x.toRat) : 0 < x.numerator := by
  rw [toRat_eq_div] at h
  apply Nat.pos_of_ne_zero
  intro hzero
  rw [hzero, Nat.cast_zero, zero_div] at h
  exact h.false

theorem div_lt_of_ratio {x y : Binary64} {k : ℕ} (h : x.toRat / y.toRat < 2 ^ k)
    (hy : 0 < y.toRat) (hk : k ≤ 1000) : ∃ z, x.div y = some z ∧ z.toRat < 2 ^ (k + 1) := by
  rw [← div_numerators] at h
  obtain ⟨z, hz, hvalue⟩ := ofQuotient_lt (Nat.mul_pos x.denominator_pos (numerator_pos hy)) h hk
  exact ⟨z.withSign (x.negative != y.negative), by rw [div, hz]; rfl, hvalue⟩

/-- Division by at least one. -/
theorem div_lt {x y : Binary64} {k : ℕ} (hx : x.toRat < 2 ^ k) (hy : 1 ≤ y.toRat)
    (hk : k ≤ 1000) : ∃ z, x.div y = some z ∧ z.toRat < 2 ^ (k + 1) :=
  div_lt_of_ratio ((div_le_self x.toRat_nonneg hy).trans_lt hx) (one_pos.trans_le hy) hk

theorem roundingExponent_one_le (n : ℕ) : roundingExponent n 1 ≤ n.log2 := by
  have hlt : n < 2 ^ (n.log2 + 1) * 1 := by
    rw [Nat.mul_one]
    exact Nat.lt_log2_self
  have hle := roundingExponent_le hlt
  omega

/-- No unit of the last place that is used for a natural is greater than it. -/
theorem one_div_two_zpow_le {n : ℕ} (hn : 0 < n) {e : ℤ} (he : e ≤ n.log2) :
    (1 : ℚ) / 2 ^ e ≤ (n <<< (-e).toNat / 1 <<< e.toNat : ℕ) := by
  rw [Nat.shiftLeft_eq, Nat.shiftLeft_eq, one_mul, zpow_eq_div, one_div_div]
  rcases le_total e 0 with hneg | hpos
  · -- The quotient is a whole multiple of `n`.
    rw [Int.toNat_of_nonpos hneg, pow_zero, pow_zero, Nat.div_one, div_one]
    exact_mod_cast Nat.le_mul_of_pos_left _ hn
  · have hpow : 2 ^ e.toNat ≤ n :=
      calc 2 ^ e.toNat ≤ 2 ^ n.log2 := Nat.pow_le_pow_right two_pos (by omega)
        _ ≤ n := Nat.log2_self_le (Nat.ne_of_gt hn)
    have hone : 1 ≤ n * 2 ^ (-e).toNat / 2 ^ e.toNat := by
      rw [Int.toNat_of_nonpos (neg_nonpos.2 hpos), pow_zero, mul_one]
      exact Nat.div_pos hpow (by positivity)
    calc (2 : ℚ) ^ (-e).toNat / 2 ^ e.toNat ≤ 1 := by
          rw [Int.toNat_of_nonpos (neg_nonpos.2 hpos), pow_zero]
          exact div_le_one_of_le₀ (one_le_pow₀ one_le_two) (by positivity)
      _ ≤ (n * 2 ^ (-e).toNat / 2 ^ e.toNat : ℕ) := by exact_mod_cast hone

/-- No natural but zero is rounded to less than one. -/
theorem one_le_ofNat? {n : ℕ} (hn : 0 < n) {x : Binary64} (h : ofNat? n = some x) :
    1 ≤ x.toRat := by
  rw [ofNat?, ofQuotient_eq (Nat.ne_of_gt hn)] at h
  split at h
  · simp at h
  obtain rfl := Option.some.inj h
  have hunit := one_div_two_zpow_le hn (roundingExponent_one_le n)
  have hfloor := le_divideEven (n <<< (-roundingExponent n 1).toNat)
    (1 <<< (roundingExponent n 1).toNat)
  rw [toRat_rounded, roundedMantissa, ← div_le_iff₀ (by positivity)]
  exact hunit.trans (by exact_mod_cast hfloor)

end ReleaseGate.Decimal.Binary64
