import Mathlib.Tactic.NormNum
import ReleaseGate.Proofs.Decimal.Shortest
import ReleaseGate.Proofs.Json.Numeral

/-!
# Numbers in range

Every 64-bit word is read back as it is. A real number is read back, if perhaps not as it is, unless
it is written with an exponent that takes it near the end of the range.
-/
namespace ReleaseGate.Json

open Decimal Binary64

theorem le_foldl_digits (digits : List ℕ) (n : ℕ) :
    n ≤ digits.foldl (fun n d => n * 10 + d) n := by
  induction digits generalizing n with
  | nil => exact le_rfl
  | cons d digits ih =>
    have htail := ih (n * 10 + d)
    rw [List.foldl_cons]
    omega

theorem foldl_digits_lt {digits : List ℕ} (h : ∀ d ∈ digits, d < 10) (n : ℕ) :
    digits.foldl (fun n d => n * 10 + d) n < (n + 1) * 10 ^ digits.length := by
  induction digits generalizing n with
  | nil => simp
  | cons d digits ih =>
    have hd : d < 10 := h d List.mem_cons_self
    calc digits.foldl (fun n d => n * 10 + d) (n * 10 + d)
        < (n * 10 + d + 1) * 10 ^ digits.length :=
          ih (fun x hx => h x (List.mem_cons_of_mem d hx)) _
      _ ≤ ((n + 1) * 10) * 10 ^ digits.length := by
          gcongr
          omega
      _ = (n + 1) * 10 ^ (d :: digits).length := by
          rw [List.length_cons]
          ring

/-- Digits that fit a word are all read. -/
theorem gather_of_le {digits : List ℕ} {n : ℕ}
    (h : digits.foldl (fun n d => n * 10 + d) n ≤ maxWord) :
    gather n digits = (digits.foldl (fun n d => n * 10 + d) n, 0) := by
  induction digits generalizing n with
  | nil => rfl
  | cons d digits ih =>
    rw [List.foldl_cons] at h
    have hle := (le_foldl_digits digits (n * 10 + d)).trans h
    rw [gather, if_pos hle, ih h, List.foldl_cons]

theorem gather_fst_le (digits : List ℕ) {n : ℕ} (h : n ≤ maxWord) :
    (gather n digits).1 ≤ maxWord := by
  induction digits generalizing n with
  | nil => exact h
  | cons d digits ih =>
    rw [gather]
    split
    case isTrue hle => exact ih hle
    case isFalse => exact h

theorem digitsValue_digitsOf (n : ℕ) : digitsValue (digitsOf n) = n := by
  induction n using Nat.strongRecOn with
  | ind n ih =>
    by_cases hn : n < 10
    · rw [digitsOf_of_lt hn]
      simp [digitsValue]
    · have hvalue := ih (n / 10) (by omega)
      rw [digitsValue] at hvalue
      rw [digitsOf_of_le (by omega), digitsValue, List.foldl_append, hvalue]
      simp only [List.foldl_cons, List.foldl_nil]
      omega

/-- Naturals that fit a word are read back. -/
theorem toNumber?_nat {n : ℕ} (h : n ≤ maxWord) :
    (Number.whole n).literal.toNumber? = some (.whole n) := by
  have hvalue := digitsValue_digitsOf n
  rw [digitsValue] at hvalue
  have hgather : gather 0 (digitsOf n) = (n, 0) := by
    rw [gather_of_le (by rw [hvalue]; exact h), hvalue]
  have hnegative : ¬ (n : ℤ) < 0 := by omega
  simp [Literal.toNumber?, Number.literal, Literal.isInteger, hgather]

theorem isSome_powers : ∀ n ≤ 308, (ofNat? (Nat.pow 10 n)).isSome := by
  decide +kernel

theorem one_le_powerOfTen {n : ℕ} (h : n ≤ 308) : 1 ≤ (powerOfTen n).toRat := by
  obtain ⟨x, hx⟩ := Option.isSome_iff_exists.1 (isSome_powers n h)
  rw [powerOfTen, hx, Option.getD_some]
  exact one_le_ofNat? (Nat.pow_pos (by decide)) hx

theorem powerOfTen_lt {n : ℕ} (h : n ≤ 100) : (powerOfTen n).toRat < 2 ^ 401 := by
  have hlt : Nat.pow 10 n < 2 ^ 400 := by
    calc Nat.pow 10 n ≤ Nat.pow 10 100 := Nat.pow_le_pow_right (by decide) h
      _ < 16 ^ 100 := Nat.pow_lt_pow_left (by decide) (by decide)
      _ = 2 ^ 400 := by rw [show (16 : ℕ) = 2 ^ 4 from rfl, ← pow_mul]
  obtain ⟨x, hx, hvalue⟩ := ofNat?_lt hlt (by decide)
  rw [powerOfTen, hx]
  exact hvalue

/-- Scaling stays in range if it does not go up far. Each division on the way down adds a unit in
the last place at most. -/
theorem isSome_scale (steps : ℕ) {k : ℕ} {x : Binary64} {e : ℤ} (hx : x.toRat < 2 ^ k)
    (hk : k + steps ≤ 500) (he : e ≤ 100) : (scale x e steps).isSome := by
  induction steps generalizing k x e with
  | zero => rfl
  | succ steps ih =>
    rw [scale]
    split
    · rfl
    split
    · omega
    split
    case isTrue hnonneg =>
      obtain ⟨z, hz, -⟩ := mul_lt hx (powerOfTen_lt (n := e.toNat) (by omega)) (by omega)
      rw [hz]
      rfl
    split
    case isTrue hlow =>
      obtain ⟨z, hz, -⟩ := div_lt hx (one_le_powerOfTen (n := (-e).toNat) (by omega)) (by omega)
      rw [hz]
      rfl
    case isFalse =>
      obtain ⟨z, hz, hvalue⟩ := div_lt hx (one_le_powerOfTen le_rfl) (by omega)
      simp only [hz]
      exact ih hvalue (by omega) (by omega)

theorem isSome_toReal? {l : Literal} (hlength : l.whole.length ≤ 19)
    (hwhole : ∀ d ∈ l.whole, d < 10)
    (hexponent : ∀ digits, l.exponent = some (false, digits) → digitsValue digits ≤ 100) :
    l.toReal?.isSome := by
  have hle : l.whole.foldl (fun n d => n * 10 + d) 0 ≤ maxWord := by
    have hlt := foldl_digits_lt hwhole 0
    have hpow : 10 ^ l.whole.length ≤ 10 ^ 19 := Nat.pow_le_pow_right (by decide) hlength
    have hmax : 10 ^ 19 ≤ maxWord := by decide
    omega
  have hgather := gather_of_le hle
  have hsignificand := gather_fst_le l.fraction hle
  have hlimit : 100 < exponentLimit := by decide
  simp only [Literal.toReal?, hgather, Option.bind_eq_bind, Option.pure_def]
  generalize gather _ l.fraction = found at hsignificand
  obtain ⟨x, hx, hvalue⟩ := ofNat?_lt (n := found.1) (k := 64) (hsignificand.trans_lt (by decide))
    (by decide)
  have hscale : ∀ e ≤ 100, ((ofNat? found.1).bind fun x => (scale x e 4).bind fun magnitude =>
      some (magnitude.withSign l.negative)).isSome := by
    intro e he
    obtain ⟨y, hy⟩ := Option.isSome_iff_exists.1 (isSome_scale 4 hvalue (by decide) he)
    simp [hx, hy]
  cases hexp : l.exponent with
  | none => exact hscale _ (by omega)
  | some e =>
    obtain ⟨negative, digits⟩ := e
    cases negative with
    | true =>
      simp only [or_true, if_true]
      split
      · rfl
      · exact hscale _ (by omega)
    | false =>
      have hdigits := hexponent digits hexp
      simp only [Bool.false_eq_true, if_false]
      rw [if_neg (by omega)]
      exact hscale _ (by omega)

theorem pow_length_digitsOf_le {n : ℕ} (hn : 0 < n) : 10 ^ ((digitsOf n).length - 1) ≤ n := by
  rw [length_digitsOf, natDigits]
  rcases Nat.eq_zero_or_pos ((Nat.toDigits 10 n).length - 1) with h | h
  · rw [h]
    exact hn
  · by_contra hlt
    have hle := (Nat.length_toDigits_le_iff (b := 10) (by decide) h).2 (Nat.not_le.1 hlt)
    omega

/-- The place of the first digit of a decimal. -/
theorem exponent_add_length_le {d : Scientific} {k : ℕ} (hzero : d.digits ≠ 0)
    (h : d.toRat < 10 ^ k) : d.exponent + (digitsOf d.digits).length ≤ k := by
  have hpos : 0 < (digitsOf d.digits).length := List.length_pos_of_ne_nil (digitsOf_ne_nil _)
  have hdigits : ((10 : ℚ) ^ ((digitsOf d.digits).length - 1)) ≤ d.digits := by
    exact_mod_cast pow_length_digitsOf_le (Nat.pos_of_ne_zero hzero)
  have hlt : (10 : ℚ) ^ (d.exponent + ((digitsOf d.digits).length - 1 : ℕ)) < 10 ^ (k : ℤ) := by
    calc (10 : ℚ) ^ (d.exponent + ((digitsOf d.digits).length - 1 : ℕ))
        = 10 ^ ((digitsOf d.digits).length - 1) * 10 ^ d.exponent := by
          rw [zpow_add₀ (by norm_num), zpow_natCast, mul_comm]
      _ ≤ d.digits * 10 ^ d.exponent := by gcongr
      _ < 10 ^ (k : ℤ) := by
          rw [zpow_natCast]
          exact h
  have hexponent := (zpow_lt_zpow_iff_right₀ (by norm_num : (1 : ℚ) < 10)).1 hlt
  omega

theorem length_whole_layoutLiteral (d : Scientific) : (layoutLiteral d).whole.length ≤ 19 := by
  unfold layoutLiteral
  simp only
  split
  · decide
  split
  · split
    · simp only [List.length_append, List.length_replicate]
      omega
    · simp only [List.length_take]
      omega
  split
  · exact Nat.le_add_left 1 18
  · simp only [List.length_take]
    omega

/-- An exponent that is not negative is that of the first digit. -/
theorem exponent_layoutLiteral_le {d : Scientific} {digits : List ℕ}
    (h : d.digits ≠ 0 → d.exponent + (digitsOf d.digits).length ≤ 101)
    (hexponent : (layoutLiteral d).exponent = some (false, digits)) : digitsValue digits ≤ 100 := by
  unfold layoutLiteral at hexponent
  simp only at hexponent
  split at hexponent
  · simp at hexponent
  case isFalse hzero =>
    have hlead := h hzero
    split at hexponent
    · split at hexponent <;> simp at hexponent
    split at hexponent
    · simp at hexponent
    · simp only [Option.some.injEq, Prod.mk.injEq, decide_eq_false_iff_not] at hexponent
      rw [← hexponent.2, digitsValue_digitsOf]
      omega

theorem isSome_toReal?_layoutLiteral {d : Scientific} (h : d.toRat < 10 ^ 101) (negative : Bool) :
    ({ layoutLiteral d with negative := negative } : Literal).toReal?.isSome := by
  apply isSome_toReal?
  · exact length_whole_layoutLiteral d
  · exact (isProper_layoutLiteral d).whole_lt
  · intro digits hexponent
    exact exponent_layoutLiteral_le (fun hzero => exponent_add_length_le hzero h) hexponent

theorem isSome_toNumber? {l : Literal} (h : l.toReal?.isSome) : l.toNumber?.isSome := by
  unfold Literal.toNumber?
  simp only
  split
  · rfl
  split
  · rfl
  · rw [Option.isSome_map, h]

/-- A number far below the greatest one is read back from the shortest decimal. -/
theorem isSome_toNumber?_real {x : Binary64} (h : x.toRat < 2 ^ 200) :
    (Number.real x).literal.toNumber?.isSome := by
  have hshortest : (shortest x).toRat < 10 ^ 101 := by
    calc (shortest x).toRat ≤ 2 * x.toRat := toRat_shortest_le x
      _ < 2 * 2 ^ 200 := by linarith
      _ < 10 ^ 101 := by norm_num
  exact isSome_toNumber? (isSome_toReal?_layoutLiteral hshortest x.negative)

end ReleaseGate.Json
