import ReleaseGate.Decimal.Shortest
import ReleaseGate.Proofs.Decimal.Bounds

/-!
# How great shortest decimals are

The decimals that read back as a number are those of an interval around it, which reaches half a
unit of its last place to each side at most. So none of them is above the number's double.
-/
namespace ReleaseGate.Decimal

open Binary64

def Scientific.toRat (d : Scientific) : ℚ :=
  d.digits * 10 ^ d.exponent

theorem compareScaled_iff (a : ℕ) (i : ℤ) (b : ℕ) (j : ℤ) :
    (compareScaled a i b j = .lt ↔ (a : ℚ) * 10 ^ i < b * 2 ^ j) ∧
      (compareScaled a i b j = .eq ↔ (a : ℚ) * 10 ^ i = b * 2 ^ j) ∧
      (compareScaled a i b j = .gt ↔ (b : ℚ) * 2 ^ j < a * 10 ^ i) := by
  have hleft : ((a * Nat.pow 10 i.toNat <<< (-j).toNat : ℕ) : ℚ) =
      a * 10 ^ i * (10 ^ (-i).toNat * 2 ^ (-j).toNat) := by
    rw [zpow_eq_div 10 i, Nat.shiftLeft_eq, Nat.pow_eq]
    push_cast
    field_simp
  have hright : ((b * Nat.pow 10 (-i).toNat <<< j.toNat : ℕ) : ℚ) =
      b * 2 ^ j * (10 ^ (-i).toNat * 2 ^ (-j).toNat) := by
    rw [zpow_eq_div 2 j, Nat.shiftLeft_eq, Nat.pow_eq]
    push_cast
    field_simp
  have hpos : (0 : ℚ) < 10 ^ (-i).toNat * 2 ^ (-j).toNat := by positivity
  unfold compareScaled
  refine ⟨?_, ?_, ?_⟩
  · rw [Nat.compare_eq_lt, ← Nat.cast_lt (α := ℚ), hleft, hright, mul_lt_mul_iff_left₀ hpos]
  · rw [Nat.compare_eq_eq, ← Nat.cast_inj (R := ℚ), hleft, hright, mul_left_inj' hpos.ne']
  · rw [Nat.compare_eq_gt, ← Nat.cast_lt (α := ℚ), hleft, hright, mul_lt_mul_iff_left₀ hpos]

/-- The least of the quarters of a unit that are rounded to `x`. -/
def lowQuarters (x : Binary64) : ℕ :=
  if x.mantissa == 1 <<< 52 && -1074 < x.exponent then 4 * x.mantissa - 1 else 4 * x.mantissa - 2

/-- The rationals that are rounded to `x`. The ends of the interval count for an even mantissa. -/
structure InInterval (x : Binary64) (q : ℚ) : Prop where
  low : lowQuarters x * 2 ^ (x.exponent - 2) < q ∨
    x.mantissa % 2 = 0 ∧ q = lowQuarters x * 2 ^ (x.exponent - 2)
  high : q < (4 * x.mantissa + 2 : ℕ) * 2 ^ (x.exponent - 2) ∨
    x.mantissa % 2 = 0 ∧ q = (4 * x.mantissa + 2 : ℕ) * 2 ^ (x.exponent - 2)

theorem readsBack_iff (x : Binary64) (d : Scientific) :
    readsBack x d = true ↔ InInterval x d.toRat := by
  obtain ⟨-, hloweq, hlow⟩ :=
    compareScaled_iff d.digits d.exponent (lowQuarters x) (x.exponent - 2)
  obtain ⟨hhigh, hhigheq, -⟩ :=
    compareScaled_iff d.digits d.exponent (4 * x.mantissa + 2) (x.exponent - 2)
  have hunfold : readsBack x d = true ↔
      (compareScaled d.digits d.exponent (lowQuarters x) (x.exponent - 2) = .gt ∨
        x.mantissa % 2 = 0 ∧
          compareScaled d.digits d.exponent (lowQuarters x) (x.exponent - 2) = .eq) ∧
      (compareScaled d.digits d.exponent (4 * x.mantissa + 2) (x.exponent - 2) = .lt ∨
        x.mantissa % 2 = 0 ∧
          compareScaled d.digits d.exponent (4 * x.mantissa + 2) (x.exponent - 2) = .eq) := by
    simp only [readsBack, lowQuarters, Bool.and_eq_true, Bool.or_eq_true, beq_iff_eq]
  rw [hunfold, hlow, hloweq, hhigh, hhigheq]
  exact ⟨fun h => ⟨h.1, h.2⟩, fun h => ⟨h.low, h.high⟩⟩

theorem two_zpow_sub_two (e : ℤ) : (2 : ℚ) ^ (e - 2) = 2 ^ e / 4 := by
  rw [zpow_sub₀ two_ne_zero]
  norm_num

/-- What is rounded to `x` is at most half a unit away. -/
theorem InInterval.abs_sub_le {x : Binary64} {q : ℚ} (h : InInterval x q) :
    |q - x.toRat| ≤ 2 ^ x.exponent / 2 := by
  have hpos : (0 : ℚ) < 2 ^ x.exponent := by positivity
  have hlow : (4 * x.mantissa : ℚ) ≤ lowQuarters x + 2 := by
    have hle : 4 * x.mantissa ≤ lowQuarters x + 2 := by
      unfold lowQuarters
      split
      · omega
      · omega
    exact_mod_cast hle
  have hge : (lowQuarters x : ℚ) * (2 ^ x.exponent / 4) ≤ q := by
    rw [← two_zpow_sub_two]
    exact h.low.elim le_of_lt fun h => h.2.ge
  have hle : q ≤ (4 * x.mantissa + 2 : ℕ) * (2 ^ x.exponent / 4) := by
    rw [← two_zpow_sub_two]
    exact h.high.elim le_of_lt fun h => h.2.le
  have hscaled : 4 * x.mantissa * (2 ^ x.exponent / 4 : ℚ) ≤
      (lowQuarters x + 2) * (2 ^ x.exponent / 4) := by gcongr
  push_cast at hle
  rw [abs_le, toRat]
  constructor
  · linarith
  · linarith

theorem toRat_le_of_readsBack {x : Binary64} {d : Scientific} (hx : x.mantissa ≠ 0)
    (h : readsBack x d = true) : d.toRat ≤ 2 * x.toRat := by
  have hclose := abs_le.1 ((readsBack_iff x d).1 h).abs_sub_le
  have hone : (1 : ℚ) ≤ x.mantissa := by
    exact_mod_cast Nat.one_le_iff_ne_zero.2 hx
  have hunit : 2 ^ x.exponent ≤ x.toRat := le_mul_of_one_le_left (by positivity) hone
  have hpos : (0 : ℚ) < 2 ^ x.exponent := by positivity
  linarith

theorem readsBack_of_nearestOnGrid {x : Binary64} {e : ℤ} {d : Scientific}
    (h : nearestOnGrid x e = some d) : readsBack x d = true := by
  unfold nearestOnGrid at h
  simp only at h
  split at h
  case h_1 hbelow habove =>
    obtain rfl := Option.some.inj h
    split
    · exact hbelow
    · exact habove
  case h_2 hbelow _ => exact Option.some.inj h ▸ hbelow
  case h_3 _ habove => exact Option.some.inj h ▸ habove
  case h_4 => simp at h

theorem truncated_le (x : Binary64) {n : ℕ} {e : ℤ} (he : e = -(n : ℤ)) :
    Scientific.toRat ⟨x.numerator * Nat.pow 10 n / x.denominator, e⟩ ≤ x.toRat := by
  have hdiv : ((x.numerator * Nat.pow 10 n / x.denominator : ℕ) : ℚ) ≤
      (x.numerator * Nat.pow 10 n : ℕ) / x.denominator := Nat.cast_div_le
  have hpow : ((x.numerator * Nat.pow 10 n : ℕ) : ℚ) = x.numerator * 10 ^ n := by
    rw [Nat.pow_eq]
    push_cast
    rfl
  subst he
  calc Scientific.toRat ⟨x.numerator * Nat.pow 10 n / x.denominator, -(n : ℤ)⟩
      = ((x.numerator * Nat.pow 10 n / x.denominator : ℕ) : ℚ) * 10 ^ (-(n : ℤ)) := rfl
    _ ≤ (x.numerator * Nat.pow 10 n : ℕ) / x.denominator * 10 ^ (-(n : ℤ)) := by
        gcongr
    _ = x.toRat := by
        rw [hpow, toRat_eq_div, zpow_neg, zpow_natCast]
        field_simp

theorem toRat_shortestFrom_le {x : Binary64} (hx : x.mantissa ≠ 0) (k : ℤ) (left : ℕ) :
    (shortestFrom x k left).toRat ≤ 2 * x.toRat := by
  induction left with
  | zero =>
    have hnonneg := x.toRat_nonneg
    rw [shortestFrom]
    generalize hn : (1074 : ℕ) = n
    exact (truncated_le x (by omega)).trans (by linarith)
  | succ left ih =>
    rw [shortestFrom]
    cases hgrid : nearestOnGrid x (k - (17 - left)) with
    | none => exact ih
    | some d => exact toRat_le_of_readsBack hx (readsBack_of_nearestOnGrid hgrid)

theorem toRat_trim (d : Scientific) (limit : ℕ) : (d.trim limit).toRat = d.toRat := by
  induction limit generalizing d with
  | zero => rfl
  | succ limit ih =>
    rw [Scientific.trim]
    split
    case isTrue h =>
      have hdigits : (d.digits : ℚ) = (d.digits / 10 : ℕ) * 10 := by
        exact_mod_cast (Nat.div_mul_cancel (Nat.dvd_of_mod_eq_zero h.2)).symm
      rw [ih, Scientific.toRat, Scientific.toRat, hdigits, zpow_add_one₀ (by norm_num)]
      ring
    case isFalse => rfl

theorem toRat_shortest_le (x : Binary64) : (shortest x).toRat ≤ 2 * x.toRat := by
  unfold shortest
  split
  case isTrue hx => simp [Scientific.toRat, toRat, hx]
  case isFalse hx =>
    rw [toRat_trim]
    exact toRat_shortestFrom_le hx _ _

end ReleaseGate.Decimal
