import Mathlib.Data.Nat.Digits.Defs
import ReleaseGate.Text.Quoted

/-!
# Quoted texts apart

What is quoted can be told from its quotation: escapes end where the next character begins, so
texts that differ are quoted differently.
-/
namespace ReleaseGate.Text

/-- A front without marks ends at the first mark, whatever stands behind it. -/
theorem append_cons_inj {IsMark : Char → Prop} {a b s t : List Char} {x y : Char}
    (ha : ∀ c ∈ a, ¬ IsMark c) (hb : ∀ c ∈ b, ¬ IsMark c) (hx : IsMark x) (hy : IsMark y)
    (h : a ++ x :: s = b ++ y :: t) : a = b ∧ x :: s = y :: t := by
  induction a generalizing b with
  | nil =>
    cases b with
    | nil => exact ⟨rfl, h⟩
    | cons d b =>
      obtain ⟨rfl, -⟩ := List.cons.inj h
      exact absurd hx (hb x List.mem_cons_self)
  | cons c a ih =>
    cases b with
    | nil =>
      obtain ⟨rfl, -⟩ := List.cons.inj h
      exact absurd hy (ha c List.mem_cons_self)
    | cons d b =>
      obtain ⟨rfl, htail⟩ := List.cons.inj h
      obtain ⟨rfl, hrest⟩ := ih (fun e he => ha e (List.mem_cons_of_mem c he))
        (fun e he => hb e (List.mem_cons_of_mem c he)) htail
      exact ⟨rfl, hrest⟩

theorem digitChar_inj {m n : Nat} (hm : m < 16) (hn : n < 16)
    (h : Nat.digitChar m = Nat.digitChar n) : m = n := by
  have hall : ∀ m < 16, ∀ n < 16, Nat.digitChar m = Nat.digitChar n → m = n := by decide
  exact hall m hm n hn h

section Numeral

variable {b : Nat} (hb : 1 < b) (hle : b ≤ 16)
include hb hle

theorem exists_digitChar_of_mem_toDigits {n : Nat} {c : Char} (h : c ∈ Nat.toDigits b n) :
    ∃ d < 16, c = Nat.digitChar d := by
  induction n using Nat.strongRecOn with
  | ind n ih =>
    by_cases hn : n < b
    · rw [Nat.toDigits_of_lt_base hn, List.mem_singleton] at h
      exact ⟨n, by omega, h⟩
    · rw [Nat.toDigits_of_base_le hb (Nat.not_lt.1 hn), List.mem_append, List.mem_singleton] at h
      rcases h with h | h
      · exact ih (n / b) (Nat.div_lt_self (by omega) hb) h
      · exact ⟨n % b, (Nat.mod_lt n (by omega)).trans_le hle, h⟩

/-- Numerals up to base sixteen differ where the numbers do: the last digit is the remainder, and
what stands before it is the numeral of the quotient. -/
theorem toDigits_injective : Function.Injective (Nat.toDigits b) := by
  intro m n h
  induction m using Nat.strongRecOn generalizing n with
  | ind m ih =>
    have hshort : ∀ k, ¬ k < b →
        ∀ d : Char, Nat.toDigits b (k / b) ++ [(k % b).digitChar] ≠ [d] := by
      intro k _ d hd
      have hlength := congrArg List.length hd
      have hpos := Nat.length_toDigits_pos (b := b) (n := k / b)
      simp only [List.length_append, List.length_singleton] at hlength
      omega
    by_cases hm : m < b
    · by_cases hn : n < b
      · rw [Nat.toDigits_of_lt_base hm, Nat.toDigits_of_lt_base hn] at h
        exact digitChar_inj (by omega) (by omega) (List.cons.inj h).1
      · rw [Nat.toDigits_of_lt_base hm, Nat.toDigits_of_base_le hb (Nat.not_lt.1 hn)] at h
        exact absurd h.symm (hshort n hn _)
    · by_cases hn : n < b
      · rw [Nat.toDigits_of_lt_base hn, Nat.toDigits_of_base_le hb (Nat.not_lt.1 hm)] at h
        exact absurd h (hshort m hm _)
      · rw [Nat.toDigits_of_base_le hb (Nat.not_lt.1 hm),
          Nat.toDigits_of_base_le hb (Nat.not_lt.1 hn)] at h
        obtain ⟨hfront, hlast⟩ := List.append_inj' h rfl
        have hquotient := ih (m / b) (Nat.div_lt_self (by omega) hb) hfront
        have hremainder := digitChar_inj ((Nat.mod_lt m (by omega)).trans_le hle)
          ((Nat.mod_lt n (by omega)).trans_le hle) (List.cons.inj hlast).1
        rw [← Nat.div_add_mod m b, hquotient, hremainder, Nat.div_add_mod]

end Numeral

/-- The characters whose escape is a letter, with that letter. -/
def letterEscapes : List (Char × Char) :=
  [('"', '"'), ('\\', '\\'), ('\n', 'n'), ('\r', 'r'), ('\t', 't'), ('\x00', '0')]

/-- The three ways to write a character between quotes. -/
inductive Escapes (c : Char) : List Char → Prop
  | plain (h : c ≠ '\\') : Escapes c [c]
  | letter {l : Char} (h : (c, l) ∈ letterEscapes) : Escapes c ['\\', l]
  | number : Escapes c ('\\' :: 'u' :: '\x7b' :: (Nat.toDigits 16 c.toNat ++ ['\x7d']))

theorem escapes_escape (c : Char) : Escapes c (escape c) := by
  unfold escape
  split
  case isTrue h => exact .letter (by simp [letterEscapes, h])
  split
  case isTrue h => exact .letter (by simp [letterEscapes, h])
  case isFalse hslash =>
  split
  case isTrue h => exact .letter (by simp [letterEscapes, h])
  split
  case isTrue h => exact .letter (by simp [letterEscapes, h])
  split
  case isTrue h => exact .letter (by simp [letterEscapes, h])
  split
  case isTrue h => exact .letter (by simp [letterEscapes, h])
  split
  case isTrue => exact .number
  case isFalse => exact .plain hslash

theorem letterEscapes_inj {c d l : Char} (hc : (c, l) ∈ letterEscapes)
    (hd : (d, l) ∈ letterEscapes) : c = d := by
  have hall : ∀ p ∈ letterEscapes, ∀ q ∈ letterEscapes, p.2 = q.2 → p.1 = q.1 := by decide
  exact hall _ hc _ hd rfl

theorem not_mem_letterEscapes (c : Char) : (c, 'u') ∉ letterEscapes := by
  have hall : ∀ p ∈ letterEscapes, p.2 ≠ 'u' := by decide
  exact fun h => hall _ h rfl

theorem closing_not_mem_toDigits (n : Nat) : '\x7d' ∉ Nat.toDigits 16 n := by
  intro h
  obtain ⟨d, hd, he⟩ := exists_digitChar_of_mem_toDigits (by decide) (by decide) h
  have hall : ∀ d < 16, '\x7d' ≠ Nat.digitChar d := by decide
  exact hall d hd he

theorem Escapes.append_inj {c d : Char} {u v s t : List Char} (hu : Escapes c u)
    (hv : Escapes d v) (h : u ++ s = v ++ t) : c = d ∧ s = t := by
  cases hu with
  | plain hc =>
    cases hv with
    | plain => exact List.cons.inj h
    | letter => exact absurd (List.cons.inj h).1 hc
    | number => exact absurd (List.cons.inj h).1 hc
  | letter hc =>
    cases hv with
    | plain hd => exact absurd (List.cons.inj h).1.symm hd
    | letter hd =>
      obtain ⟨rfl, hrest⟩ := List.cons.inj (List.cons.inj h).2
      exact ⟨letterEscapes_inj hc hd, hrest⟩
    | number =>
      obtain ⟨rfl, -⟩ := List.cons.inj (List.cons.inj h).2
      exact absurd hc (not_mem_letterEscapes c)
  | number =>
    cases hv with
    | plain hd => exact absurd (List.cons.inj h).1.symm hd
    | letter hd =>
      obtain ⟨rfl, -⟩ := List.cons.inj (List.cons.inj h).2
      exact absurd hd (not_mem_letterEscapes d)
    | number =>
      have hnumbers : Nat.toDigits 16 c.toNat ++ '\x7d' :: s =
          Nat.toDigits 16 d.toNat ++ '\x7d' :: t := by simpa using h
      have hclosing : ∀ n, ∀ e ∈ Nat.toDigits 16 n, ¬ e = '\x7d' := by
        rintro n e he rfl
        exact closing_not_mem_toDigits n he
      obtain ⟨hdigits, hrest⟩ := append_cons_inj (hclosing _) (hclosing _) rfl rfl hnumbers
      exact ⟨Char.toNat_inj.1 (toDigits_injective (by decide) (by decide) hdigits),
        (List.cons.inj hrest).2⟩

theorem Escapes.ne_nil {c : Char} {u : List Char} (h : Escapes c u) : u ≠ [] := by
  cases h <;> exact List.cons_ne_nil _ _

theorem quoted_injective : Function.Injective quoted := by
  have hflat : ∀ s t : List Char, s.flatMap escape = t.flatMap escape → s = t := by
    intro s
    induction s with
    | nil =>
      intro t h
      cases t with
      | nil => rfl
      | cons d t =>
        have hnil := (List.append_eq_nil_iff.1 h.symm).1
        exact absurd hnil (escapes_escape d).ne_nil
    | cons c s ih =>
      intro t h
      cases t with
      | nil => exact absurd (List.append_eq_nil_iff.1 h).1 (escapes_escape c).ne_nil
      | cons d t =>
        obtain ⟨rfl, hrest⟩ := (escapes_escape c).append_inj (escapes_escape d) h
        rw [ih t hrest]
  intro s t h
  have hlist := (List.cons.inj (String.ofList_injective h)).2
  exact String.toList_inj.1 (hflat _ _ (List.append_cancel_right hlist))

end ReleaseGate.Text
