import ReleaseGate.Evidence.PassRate
import ReleaseGate.Proofs.Decimal.Nearest

/-!
# Pass rates are moderate

Whatever two words a pass rate is made of, it stays far from the greatest number.
-/
namespace ReleaseGate.Evidence

open Decimal Binary64

theorem roundToNat_lt {x : Binary64} {k : ℕ} (h : x.toRat < 2 ^ k) :
    x.roundToNat < 2 ^ (k + 1) := by
  have hden : (0 : ℚ) < x.denominator := by exact_mod_cast x.denominator_pos
  have hfloor : (x.roundToNat : ℚ) ≤ (2 * x.numerator + x.denominator : ℕ) /
      (2 * x.denominator : ℕ) := Nat.cast_div_le
  have hvalue : ((2 * x.numerator + x.denominator : ℕ) : ℚ) / (2 * x.denominator : ℕ) =
      x.toRat + 1 / 2 := by
    rw [toRat_eq_div]
    push_cast
    field_simp
  have hone : (1 : ℚ) ≤ 2 ^ k := one_le_pow₀ one_le_two
  have hlt : (x.roundToNat : ℚ) < 2 ^ (k + 1) := by
    calc (x.roundToNat : ℚ) ≤ x.toRat + 1 / 2 := hvalue ▸ hfloor
      _ < 2 ^ k + 2 ^ k := by linarith
      _ = 2 ^ (k + 1) := by ring
  exact_mod_cast hlt

/-- The ratio of which the percentage is made, for no more passed tests than there are. The steps
before it at most double what they round. -/
theorem scaled_div_lt {p t hundred scaled : Binary64} {passed total : ℕ} (hle : passed ≤ total)
    (htotal : 0 < total) (hhundred : hundred.toRat = 100) (hp : ofNat? passed = some p)
    (ht : ofNat? total = some t) (hscaled : hundred.mul p = some scaled) :
    scaled.toRat / t.toRat < 2 ^ 10 := by
  have htwice : (total : ℚ) ≤ 2 * t.toRat := by
    have hone : (1 : ℚ) ≤ total / (1 : ℕ) := by
      rw [Nat.cast_one, div_one]
      exact_mod_cast htotal
    have h := le_two_mul_toRat one_pos ht hone
    rwa [Nat.cast_one, div_one] at h
  have hpassed : p.toRat ≤ 2 * passed ∧ (p.toRat = 0 ∨ 1 ≤ p.toRat) := by
    rcases Nat.eq_zero_or_pos passed with rfl | hpos
    · obtain rfl := Option.some.inj hp
      simp [toRat_zero]
    · have hone : (1 : ℚ) ≤ passed / (1 : ℕ) := by
        rw [Nat.cast_one, div_one]
        exact_mod_cast hpos
      have h := toRat_le_two_mul one_pos hp (.inr hone)
      rw [Nat.cast_one, div_one] at h
      exact ⟨h, .inr (one_le_ofNat? hpos hp)⟩
  have hproduct : scaled.toRat ≤ 2 * (hundred.toRat * p.toRat) := by
    refine toRat_mul_le_two_mul hscaled (hpassed.2.imp (fun h => ?_) fun h => ?_)
    · rw [h, mul_zero]
    · rw [hhundred]
      linarith
  have hcast : (passed : ℚ) ≤ total := by exact_mod_cast hle
  have hpos : (0 : ℚ) < total := by exact_mod_cast htotal
  rw [hhundred] at hproduct
  rw [div_lt_iff₀ (by linarith)]
  linarith [hpassed.1]

/-- With no more passed tests than there are, the pass rate is a moderate number of hundredths, and
the number nearest to it. -/
theorem exists_hundredths {passed total : UInt64} (hle : passed ≤ total) :
    ∃ n < 2 ^ 22, ofQuotient n 100 = some (passRate passed total) := by
  unfold passRate
  split
  case isTrue => exact ⟨0, by decide, rfl⟩
  case isFalse htotal =>
    have hpos : 0 < total.toNat := by
      refine Nat.pos_of_ne_zero fun h => htotal ?_
      exact UInt64.toNat_inj.1 h
    obtain ⟨hundred, hhundred, hvalue, -⟩ := toRat_ofNat? (n := 100) (by decide)
    have hvalue' : hundred.toRat < 2 ^ 7 := by
      rw [hvalue]
      norm_num
    obtain ⟨p, hp, hpassed⟩ := ofNat?_lt (n := passed.toNat) (k := 64) passed.toNat_lt (by decide)
    obtain ⟨t, ht, -⟩ := ofNat?_lt (n := total.toNat) (k := 64) total.toNat_lt (by decide)
    obtain ⟨scaled, hscaled, -⟩ := mul_lt hvalue' hpassed (by decide)
    have hratio := scaled_div_lt hle hpos hvalue hp ht hscaled
    have hone := one_le_ofNat? hpos ht
    obtain ⟨percent, hpercent, hpc⟩ := div_lt_of_ratio hratio (one_pos.trans_le hone) (by decide)
    obtain ⟨again, hagain, ha⟩ := mul_lt hpc hvalue' (by decide)
    have hn := roundToNat_lt ha
    obtain ⟨hundredths, y, hhundredths, hy, hdiv⟩ :=
      div_ofNat? (hn.trans_le (by decide)) (by decide) (by decide : 0 < 100)
    obtain rfl := Option.some.inj (hhundred.symm.trans hy)
    obtain ⟨_, hsame, hhd⟩ := ofNat?_lt hn (by decide)
    obtain rfl := Option.some.inj (hhundredths.symm.trans hsame)
    obtain ⟨rate, hrate, -⟩ := div_lt hhd (one_le_ofNat? (by decide) hhundred) (by decide)
    have hpercentage : passRate.percentage passed total = some rate := by
      simp [passRate.percentage, hhundred, hp, hscaled, ht, hpercent, hagain, hhundredths, hrate]
    rw [hpercentage, Option.getD_some]
    exact ⟨again.roundToNat, hn.trans_le (by decide), hdiv ▸ hrate⟩

end ReleaseGate.Evidence
