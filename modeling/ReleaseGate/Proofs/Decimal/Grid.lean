import Mathlib.Algebra.Order.Floor.Semifield
import Mathlib.Data.Rat.Floor
import ReleaseGate.Proofs.Decimal.Nearest
import ReleaseGate.Proofs.Decimal.Shortest

/-!
# Decimals on a grid

A number that a decimal was rounded to has that decimal as its shortest one, as long as the decimal
lies on a grid that is coarser than the unit of the number's last place.
-/
namespace ReleaseGate.Decimal

open Binary64

/-- A rational lies among those that are rounded to its nearest mantissa. Where the interval is
narrow on the low side, the rational is not below the mantissa at all. -/
theorem InInterval.of_isNearest {q : ℚ} {e : ℤ} {m : ℕ} (hunit : IsUnit q e)
    (hnear : IsNearest (q / 2 ^ e) m) (hm : m ≠ 0) (negative : Bool) :
    InInterval ⟨negative, m, e⟩ q := by
  have hpos : (0 : ℚ) < 2 ^ e := by positivity
  have hquarter := two_zpow_sub_two e
  constructor
  · by_cases hnarrow : m = 1 <<< 52 ∧ -1074 < e
    · left
      have hlow : lowQuarters ⟨negative, m, e⟩ = 4 * m - 1 := by simp [lowQuarters, hnarrow]
      have hcast : ((4 * m - 1 : ℕ) : ℚ) = 4 * m - 1 := by
        rw [Nat.cast_sub (by omega)]
        push_cast
        rfl
      have hm52 : (m : ℚ) = 2 ^ 52 := by
        rw [hnarrow.1]
        norm_num [Nat.shiftLeft_eq]
      have hle := hunit.le hnarrow.2
      simp only [hlow, hcast, hquarter, hm52]
      linarith
    · have hlow : lowQuarters ⟨negative, m, e⟩ = 4 * m - 2 := by
        simpa [lowQuarters] using fun h he => absurd ⟨h, he⟩ hnarrow
      have hcast : ((4 * m - 2 : ℕ) : ℚ) = 4 * m - 2 := by
        rw [Nat.cast_sub (by omega)]
        push_cast
        rfl
      simp only [hlow, hcast, hquarter]
      refine hnear.le.lt_or_eq.imp (fun h => ?_) fun h => ⟨hnear.even (.inl h.symm), ?_⟩
      · rw [lt_div_iff₀ hpos] at h
        linarith
      · rw [eq_div_iff hpos.ne'] at h
        linarith
  · simp only [hquarter]
    push_cast
    refine hnear.ge.lt_or_eq.imp (fun h => ?_) fun h => ⟨hnear.even (.inr h), ?_⟩
    · rw [div_lt_iff₀ hpos] at h
      linarith
    · rw [div_eq_iff hpos.ne'] at h
      linarith

/-- A mantissa of 54 bits is halved. The interval is narrow on the low side then. -/
theorem InInterval.of_carry {q : ℚ} {e : ℤ} (hunit : IsUnit q e)
    (hnear : IsNearest (q / 2 ^ e) (1 <<< 53)) (negative : Bool) :
    InInterval ⟨negative, 1 <<< 52, e + 1⟩ q := by
  have hpos : (0 : ℚ) < 2 ^ e := by positivity
  have hhalved : (2 : ℚ) ^ (e + 1 - 2) = 2 ^ e / 2 := by
    rw [two_zpow_sub_two, zpow_add_one₀ two_ne_zero]
    ring
  have hlow : lowQuarters ⟨negative, 1 <<< 52, e + 1⟩ = 2 ^ 54 - 1 := by
    have hleast := hunit.least
    have hnarrow : ((1 <<< 52 == 1 <<< 52) && decide (-1074 < e + 1)) = true := by
      simpa using by omega
    rw [lowQuarters, if_pos hnarrow]
    norm_num [Nat.shiftLeft_eq]
  constructor
  · have hle := hnear.le
    rw [le_div_iff₀ hpos] at hle
    simp only [hlow, hhalved]
    norm_num [Nat.shiftLeft_eq] at hle ⊢
    rcases hle.lt_or_eq with h | h
    · left
      linarith
    · right
      linarith
  · have hge := hnear.ge
    rw [div_le_iff₀ hpos] at hge
    left
    simp only [hhalved]
    norm_num [Nat.shiftLeft_eq] at hge ⊢
    linarith

/-- A quotient lies among those that are rounded as it is. -/
theorem inInterval_rounded {num den : ℕ} (hnum : num ≠ 0) (hden : 0 < den)
    (hm : (rounded num den).mantissa ≠ 0) : InInterval (rounded num den) (num / den) := by
  have hunit := isUnit_roundingExponent hnum hden
  have hnear := isNearest_roundedMantissa num hden
  unfold rounded at hm ⊢
  split at hm
  case isTrue hcarry =>
    rw [if_pos hcarry]
    exact .of_carry hunit (hcarry ▸ hnear) false
  case isFalse hcarry =>
    rw [if_neg hcarry]
    exact .of_isNearest hunit hnear hm false

theorem exponent_of_nearestOnGrid {x : Binary64} {e : ℤ} {d : Scientific}
    (h : nearestOnGrid x e = some d) : d.exponent = e := by
  unfold nearestOnGrid at h
  simp only at h
  split at h
  case h_1 =>
    obtain rfl := Option.some.inj h
    split
    · rfl
    · rfl
  case h_2 => exact Option.some.inj h ▸ rfl
  case h_3 => exact Option.some.inj h ▸ rfl
  case h_4 => simp at h

theorem scaled_numerator (x : Binary64) (e : ℤ) :
    ((x.numerator * Nat.pow 10 (-e).toNat : ℕ) : ℚ) / (x.denominator * Nat.pow 10 e.toNat : ℕ) =
      x.toRat / 10 ^ e := by
  rw [toRat_eq_div, zpow_eq_div 10 e, Nat.pow_eq, Nat.pow_eq]
  push_cast
  field_simp

/-- The two decimals around a number are tried on each grid, and one of them is the decimal looked
for. -/
theorem exists_nearestOnGrid {x : Binary64} {e : ℤ} {m : ℕ} (h : InInterval x (m * 10 ^ e))
    (hunit : (2 : ℚ) ^ x.exponent < 10 ^ e) : ∃ d, nearestOnGrid x e = some d := by
  have hpos : (0 : ℚ) < 10 ^ e := by positivity
  have hreads : readsBack x ⟨m, e⟩ = true := (readsBack_iff x ⟨m, e⟩).2 h
  have hclose := abs_lt.1 (h.abs_sub_le.trans_lt (by linarith : (2 : ℚ) ^ x.exponent / 2 < 10 ^ e))
  have hfloor : x.numerator * Nat.pow 10 (-e).toNat / (x.denominator * Nat.pow 10 e.toNat) =
      ⌊x.toRat / 10 ^ e⌋₊ := by
    rw [← scaled_numerator, Nat.floor_div_eq_div]
  have hm : m = ⌊x.toRat / 10 ^ e⌋₊ ∨ m = ⌊x.toRat / 10 ^ e⌋₊ + 1 := by
    have hdiv : 0 ≤ x.toRat / 10 ^ e := div_nonneg x.toRat_nonneg hpos.le
    have habove : x.toRat / 10 ^ e < m + 1 := by
      rw [div_lt_iff₀ hpos]
      linarith
    have hbelow : (m : ℚ) < x.toRat / 10 ^ e + 1 := by
      rw [← sub_lt_iff_lt_add, lt_div_iff₀ hpos]
      linarith
    have hlt : ⌊x.toRat / 10 ^ e⌋₊ < m + 1 := (Nat.floor_lt hdiv).2 (by exact_mod_cast habove)
    have hge : m < ⌊x.toRat / 10 ^ e⌋₊ + 2 := by
      have hlast := Nat.lt_floor_add_one (x.toRat / 10 ^ e)
      have hcast : (m : ℚ) < (⌊x.toRat / 10 ^ e⌋₊ + 2 : ℕ) := by
        push_cast
        linarith
      exact_mod_cast hcast
    omega
  unfold nearestOnGrid
  simp only [hfloor]
  rcases hm with rfl | rfl
  · rw [hreads]
    split <;> simp_all
  · rw [hreads]
    split <;> simp_all

theorem mul_ten_zpow {f g : ℤ} (h : f ≤ g) (s : ℕ) :
    (s : ℚ) * 10 ^ g = (s * 10 ^ (g - f).toNat : ℕ) * 10 ^ f := by
  obtain ⟨n, hn⟩ := Int.eq_ofNat_of_zero_le (sub_nonneg.2 h)
  obtain rfl : g = f + n := by omega
  rw [hn, Int.toNat_natCast, zpow_add₀ (by norm_num), zpow_natCast]
  push_cast
  ring

/-- Two decimals of one grid that are closer than its step are equal. -/
theorem eq_of_abs_sub_lt {f e g : ℤ} {a s : ℕ} (he : f ≤ e) (hg : f ≤ g)
    (h : |(a : ℚ) * 10 ^ e - s * 10 ^ g| < 10 ^ f) : (a : ℚ) * 10 ^ e = s * 10 ^ g := by
  have hpos : (0 : ℚ) < 10 ^ f := by positivity
  rw [mul_ten_zpow he, mul_ten_zpow hg] at h ⊢
  generalize a * 10 ^ (e - f).toNat = m at h
  generalize s * 10 ^ (g - f).toNat = n at h
  rw [← sub_mul, abs_mul, abs_of_pos hpos, mul_lt_iff_lt_one_left hpos] at h
  have hlt : |(m : ℤ) - n| < 1 := by exact_mod_cast h
  have heq : m = n := by
    rw [abs_lt] at hlt
    omega
  rw [heq]

/-- A number that a decimal on the grid of `10 ^ g` is rounded to, where the unit of its last place
is below the grid of `10 ^ f`. -/
structure OnGrid (x : Binary64) (s : ℕ) (f g : ℤ) : Prop where
  rounds : InInterval x (s * 10 ^ g)
  unit : (2 : ℚ) ^ x.exponent < 10 ^ f
  le : f ≤ g

theorem OnGrid.toRat_eq {x : Binary64} {s : ℕ} {f g : ℤ} (h : OnGrid x s f g) {d : Scientific}
    (hd : readsBack x d = true) (hf : f ≤ d.exponent) : d.toRat = s * 10 ^ g := by
  have hclose := ((readsBack_iff x d).1 hd).abs_sub_le
  have hother := h.rounds.abs_sub_le
  refine eq_of_abs_sub_lt hf h.le ?_
  calc |d.toRat - s * 10 ^ g|
      ≤ |d.toRat - x.toRat| + |x.toRat - s * 10 ^ g| := abs_sub_le _ _ _
    _ ≤ 2 ^ x.exponent / 2 + 2 ^ x.exponent / 2 := by
        rw [abs_sub_comm x.toRat]
        exact add_le_add hclose hother
    _ < 10 ^ f := by
        rw [add_halves]
        exact h.unit

theorem OnGrid.exists_nearestOnGrid {x : Binary64} {s : ℕ} {f g : ℤ} (h : OnGrid x s f g) {e : ℤ}
    (hf : f ≤ e) (hg : e ≤ g) : ∃ d, nearestOnGrid x e = some d := by
  refine Decimal.exists_nearestOnGrid (m := s * 10 ^ (g - e).toNat) ?_ ?_
  · rw [← mul_ten_zpow hg]
    exact h.rounds
  · exact h.unit.trans_le (zpow_le_zpow_right₀ (by norm_num) hf)

/-- The search goes down from coarse grids. Whatever it finds above the grid of `10 ^ f` is the
decimal, and on the grid of `10 ^ g` it finds something at the latest. -/
theorem OnGrid.shortestFrom_eq {x : Binary64} {s : ℕ} {f g : ℤ} (h : OnGrid x s f g) {k : ℤ}
    (hfinest : k - 17 ≤ g) (left : ℕ) (hstart : f ≤ k - (17 - left)) :
    (shortestFrom x k (left + 1)).toRat = s * 10 ^ g ∧
      f ≤ (shortestFrom x k (left + 1)).exponent := by
  induction left with
  | zero =>
    obtain ⟨d, hd⟩ := h.exists_nearestOnGrid hstart (by omega)
    have hexponent := exponent_of_nearestOnGrid hd
    rw [shortestFrom, hd, Option.getD_some, hexponent]
    exact ⟨h.toRat_eq (readsBack_of_nearestOnGrid hd) (by omega), hstart⟩
  | succ left ih =>
    cases hgrid : nearestOnGrid x (k - (17 - (left + 1 : ℕ))) with
    | some d =>
      have hexponent := exponent_of_nearestOnGrid hgrid
      rw [shortestFrom, hgrid, Option.getD_some, hexponent]
      exact ⟨h.toRat_eq (readsBack_of_nearestOnGrid hgrid) (by omega), hstart⟩
    | none =>
      have habove : g < k - (17 - (left + 1 : ℕ)) := by
        by_contra hle
        obtain ⟨d, hd⟩ := h.exists_nearestOnGrid hstart (not_lt.1 hle)
        rw [hgrid] at hd
        cases hd
      have hle := h.le
      rw [shortestFrom, hgrid, Option.getD_none]
      exact ih (by push_cast at habove; omega)

theorem exponent_le_trim (d : Scientific) (limit : ℕ) : d.exponent ≤ (d.trim limit).exponent := by
  induction limit generalizing d with
  | zero => exact le_rfl
  | succ limit ih =>
    rw [Scientific.trim]
    split
    · exact (Int.le_add_one le_rfl).trans (ih _)
    · exact le_rfl

theorem OnGrid.shortest_eq {x : Binary64} {s : ℕ} {f g : ℤ} (h : OnGrid x s f g)
    (hx : x.mantissa ≠ 0) (hfinest : magnitude x - 17 ≤ g) (hcoarsest : f < magnitude x) :
    (shortest x).toRat = s * 10 ^ g ∧ f ≤ (shortest x).exponent := by
  obtain ⟨hvalue, hexponent⟩ := h.shortestFrom_eq hfinest 16 (by push_cast; omega)
  rw [shortest, if_neg hx]
  exact ⟨(toRat_trim _ _).trans hvalue, hexponent.trans (exponent_le_trim _ _)⟩

/-- The estimate of the magnitude goes by the binary logarithm. -/
theorem magnitude_bounds {x : Binary64} {j k : ℤ} (hx : x.mantissa ≠ 0)
    (hlow : (2 : ℚ) ^ j ≤ x.toRat) (hhigh : x.toRat < 2 ^ k) :
    j * 30103 / 100000 - 1 ≤ magnitude x ∧ magnitude x ≤ (k - 1) * 30103 / 100000 + 2 := by
  have hj : j < x.mantissa.log2 + 1 + x.exponent := by
    rw [← zpow_lt_zpow_iff_right₀ (one_lt_two (α := ℚ)), zpow_add₀ two_ne_zero]
    refine hlow.trans_lt ?_
    rw [toRat]
    gcongr
    exact_mod_cast Nat.lt_log2_self
  have hk : x.mantissa.log2 + x.exponent < k := by
    rw [← zpow_lt_zpow_iff_right₀ (one_lt_two (α := ℚ)), zpow_add₀ two_ne_zero]
    refine lt_of_le_of_lt ?_ hhigh
    rw [toRat, zpow_natCast]
    gcongr
    exact_mod_cast Nat.log2_self_le hx
  unfold magnitude
  simp only
  split
  · omega
  split
  · omega
  split
  · omega
  · omega

end ReleaseGate.Decimal
