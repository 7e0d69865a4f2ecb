import Mathlib.Data.Nat.Digits.Defs
import ReleaseGate.Text.Blank
import ReleaseGate.Text.Digit

/-!
# Decimal numerals in ASCII

The digits that naturals are written with: what class of characters they are, and that their value
from left to right is the natural.
-/
namespace ReleaseGate.Text

/-- The code points of white space. -/
def spaces : List Nat :=
  [9, 10, 11, 12, 13, 0x20, 0x85, 0xA0, 0x1680, 0x2000, 0x2001, 0x2002, 0x2003, 0x2004, 0x2005,
    0x2006, 0x2007, 0x2008, 0x2009, 0x200A, 0x2028, 0x2029, 0x202F, 0x205F, 0x3000]

theorem toNat_mem_spaces {c : Char} (h : isSpace c = true) : c.toNat ∈ spaces := by
  simp only [isSpace, Bool.or_eq_true, Bool.and_eq_true, decide_eq_true_eq, beq_iff_eq] at h
  simp only [spaces, List.mem_cons, List.not_mem_nil, or_false]
  omega

/-- ASCII digits are digits. -/
theorem isDigit_of_isDigit {c : Char} (h : c.isDigit = true) : isDigit c = true := by
  obtain ⟨hlow, hhigh⟩ := Char.isDigit_iff_toNat.1 h
  have hzero : '0'.toNat = 48 := rfl
  have hnine : '9'.toNat = 57 := rfl
  refine List.any_eq_true.2 ⟨(0x30, 0x39), List.mem_cons_self, ?_⟩
  simp only [Bool.and_eq_true, decide_eq_true_eq]
  omega

/-- No range of digits holds a character of white space. -/
theorem isSpace_eq_false_of_isDigit {c : Char} (h : isDigit c = true) : isSpace c = false := by
  have hapart : ∀ n ∈ spaces, digitRanges.any (fun r => r.1 ≤ n && n ≤ r.2) = false := by decide
  rw [Bool.eq_false_iff]
  intro hspace
  have hnone := hapart c.toNat (toNat_mem_spaces hspace)
  rw [isDigit, inRanges, hnone] at h
  cases h

theorem isSpace_of_isDigit {c : Char} (h : c.isDigit = true) : isSpace c = false :=
  isSpace_eq_false_of_isDigit (isDigit_of_isDigit h)

theorem isDigit_toDigits {n : Nat} {c : Char} (h : c ∈ Nat.toDigits 10 n) : c.isDigit = true :=
  Nat.isDigit_of_mem_toDigits (by decide) (by decide) h

theorem foldl_toDigits (n : Nat) :
    (Nat.toDigits 10 n).foldl (fun n c => n * 10 + (c.toNat - 48)) 0 = n := by
  have hvalue := Nat.ofDigitChars_toDigits (b := 10) (n := n) (by decide) (by decide)
  simpa [Nat.ofDigitChars, Nat.mul_comm] using hvalue

end ReleaseGate.Text
