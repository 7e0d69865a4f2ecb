import Mathlib.Tactic.IntervalCases
import ReleaseGate.Text.Utf8

/-!
# Bytes of characters

What was written of characters is read as the same characters, one after the other, wherever it
stands.
-/
namespace ReleaseGate.Text.Utf8

theorem lead_of_le {b : ℕ} (h : b ≤ 0x7F) : lead b = .single (Char.ofNat b) := by
  rw [lead, if_pos h]

theorem lead_two {n : ℕ} (h : 2 ≤ n) (hn : n < 32) :
    lead (n + 0xC0) = .opens ⟨1, n, 0x80, 0xBF⟩ := by
  interval_cases n <;> rfl

theorem lead_three {n : ℕ} (hn : n < 16) :
    lead (n + 0xE0) =
      .opens ⟨2, n, if n = 0 then 0xA0 else 0x80, if n = 13 then 0x9F else 0xBF⟩ := by
  interval_cases n <;> rfl

theorem lead_four {n : ℕ} (hn : n ≤ 4) :
    lead (n + 0xF0) =
      .opens ⟨3, n, if n = 0 then 0x90 else 0x80, if n = 4 then 0x8F else 0xBF⟩ := by
  interval_cases n <;> rfl

theorem scan_of_single {b : UInt8} {c : Char} (h : lead b.toNat = .single c) (rest : List UInt8) :
    scan none (b :: rest) = some c :: scan none rest := by
  rw [scan, h]

theorem scan_of_opens {b : UInt8} {p : Pending} (h : lead b.toNat = .opens p)
    (rest : List UInt8) : scan none (b :: rest) = scan (some p) rest := by
  rw [scan, h]

theorem toNat_ofNat {n : ℕ} (h : n < 256) : (UInt8.ofNat n).toNat = n :=
  UInt8.toNat_ofNat_of_lt' h

/-- A continuing byte holds six bits. -/
theorem toNat_continuing (n : ℕ) : (UInt8.ofNat (n % 64 + 0x80)).toNat = n % 64 + 0x80 :=
  toNat_ofNat (by omega)

theorem scan_continued {wanted bits low high n : ℕ} (hlow : low ≤ n % 64 + 0x80)
    (hhigh : n % 64 + 0x80 ≤ high) (rest : List UInt8) :
    scan (some ⟨wanted + 2, bits, low, high⟩) (UInt8.ofNat (n % 64 + 0x80) :: rest) =
      scan (some ⟨wanted + 1, bits * 64 + n % 64, 0x80, 0xBF⟩) rest := by
  rw [scan, toNat_continuing, if_pos ⟨hlow, hhigh⟩, if_neg (by simp only; omega),
    Nat.add_sub_cancel]
  rfl

theorem scan_completed {bits low high n : ℕ} (hlow : low ≤ n % 64 + 0x80)
    (hhigh : n % 64 + 0x80 ≤ high) (rest : List UInt8) :
    scan (some ⟨1, bits, low, high⟩) (UInt8.ofNat (n % 64 + 0x80) :: rest) =
      some (Char.ofNat (bits * 64 + n % 64)) :: scan none rest := by
  rw [scan, toNat_continuing, if_pos ⟨hlow, hhigh⟩, if_pos (by simp only; omega),
    Nat.add_sub_cancel]

theorem scan_utf8EncodeChar (c : Char) (rest : List UInt8) :
    scan none (String.utf8EncodeChar c ++ rest) = some c :: scan none rest := by
  have hchar : Char.ofNat c.val.toNat = c := Char.ofNat_toNat c
  have hvalid : c.val.toNat < 0xD800 ∨ 0xDFFF < c.val.toNat ∧ c.val.toNat < 0x110000 := c.valid
  unfold String.utf8EncodeChar
  generalize c.val.toNat = v at hchar hvalid
  by_cases h1 : v ≤ 0x7F
  · have hlead : lead (UInt8.ofNat v).toNat = .single c := by
      rw [toNat_ofNat (by omega), lead_of_le h1, hchar]
    simp only [h1, if_true, List.cons_append, List.nil_append]
    exact scan_of_single hlead rest
  by_cases h2 : v ≤ 0x7FF
  · have hlead : lead (UInt8.ofNat (v / 64 % 32 + 0xC0)).toNat =
        .opens ⟨1, v / 64, 0x80, 0xBF⟩ := by
      rw [toNat_ofNat (by omega), Nat.mod_eq_of_lt (by omega), lead_two (by omega) (by omega)]
    have hbits : v / 64 * 64 + v % 64 = v := by omega
    simp only [h1, h2, if_true, if_false, List.cons_append, List.nil_append]
    rw [scan_of_opens hlead, scan_completed (by omega) (by omega), hbits, hchar]
  by_cases h3 : v ≤ 0xFFFF
  · have hlead : lead (UInt8.ofNat (v / 4096 % 16 + 0xE0)).toNat =
        .opens ⟨2, v / 4096, if v / 4096 = 0 then 0xA0 else 0x80,
          if v / 4096 = 13 then 0x9F else 0xBF⟩ := by
      rw [toNat_ofNat (by omega), Nat.mod_eq_of_lt (by omega), lead_three (by omega)]
    have hbits : (v / 4096 * 64 + v / 64 % 64) * 64 + v % 64 = v := by omega
    simp only [h1, h2, h3, if_true, if_false, List.cons_append, List.nil_append]
    -- The narrowed ranges keep out just what two bytes can hold, and the surrogates.
    rw [scan_of_opens hlead, scan_continued (by split <;> omega) (by split <;> omega),
      scan_completed (by omega) (by omega), hbits, hchar]
  · have hlead : lead (UInt8.ofNat (v / 262144 % 8 + 0xF0)).toNat =
        .opens ⟨3, v / 262144, if v / 262144 = 0 then 0x90 else 0x80,
          if v / 262144 = 4 then 0x8F else 0xBF⟩ := by
      rw [toNat_ofNat (by omega), Nat.mod_eq_of_lt (by omega), lead_four (by omega)]
    have hbits : ((v / 262144 * 64 + v / 4096 % 64) * 64 + v / 64 % 64) * 64 + v % 64 = v := by
      omega
    simp only [h1, h2, h3, if_false, List.cons_append, List.nil_append]
    rw [scan_of_opens hlead, scan_continued (by split <;> omega) (by split <;> omega),
      scan_continued (by omega) (by omega), scan_completed (by omega) (by omega), hbits, hchar]

theorem encode_cons (c : Char) (s : List Char) :
    encode (c :: s) = String.utf8EncodeChar c ++ encode s := by
  simp [encode]

theorem utf8EncodeChar_of_lt {c : Char} (h : c.toNat < 0x80) :
    String.utf8EncodeChar c = [UInt8.ofNat c.toNat] := by
  have hle : c.val.toNat ≤ 0x7F := Nat.le_of_lt_succ h
  simp only [String.utf8EncodeChar, hle, if_true]
  rfl

/-- All bytes of a character beyond the first 128 are beyond the first 128 bytes. -/
theorem le_of_mem_utf8EncodeChar {c : Char} (h : 0x80 ≤ c.toNat) {b : UInt8}
    (hb : b ∈ String.utf8EncodeChar c) : 0x80 ≤ b.toNat := by
  have hgt : ¬ c.val.toNat ≤ 0x7F := by
    change 0x80 ≤ c.val.toNat at h
    omega
  unfold String.utf8EncodeChar at hb
  simp only [hgt, if_false] at hb
  split at hb
  · simp only [List.mem_cons, List.not_mem_nil, or_false] at hb
    rcases hb with rfl | rfl <;> rw [toNat_ofNat (by omega)] <;> omega
  split at hb
  · simp only [List.mem_cons, List.not_mem_nil, or_false] at hb
    rcases hb with rfl | rfl | rfl <;> rw [toNat_ofNat (by omega)] <;> omega
  · simp only [List.mem_cons, List.not_mem_nil, or_false] at hb
    rcases hb with rfl | rfl | rfl | rfl <;> rw [toNat_ofNat (by omega)] <;> omega

theorem scan_encode (s : List Char) : scan none (encode s) = s.map some := by
  induction s with
  | nil => simp [encode, scan]
  | cons c s ih =>
    rw [encode_cons, scan_utf8EncodeChar, ih, List.map_cons]

/-- Every text can be read back from its bytes. -/
theorem decode?_encode (s : List Char) : decode? (encode s) = some s := by
  rw [decode?, scan_encode]
  induction s with
  | nil => rfl
  | cons c s ih => simp [ih]

end ReleaseGate.Text.Utf8
