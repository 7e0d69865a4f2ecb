import Mathlib.Data.List.Chain
import ReleaseGate.Source.Comment

/-!
# Lines without their comments

What is kept of a line is put together from the pieces between its comments. No marker arises where
two pieces meet, since no piece before a block comment ends in a slash; so nothing is left to strip.
-/
namespace ReleaseGate.Source

/-- No two neighbours in the text open a comment. -/
def IsBare (s : List Char) : Prop :=
  s.IsChain fun c d => ¬ (c = '/' ∧ (d = '/' ∨ d = '*'))

theorem isBare_iff {s : List Char} :
    IsBare s ↔ ¬ ['/', '/'] <:+: s ∧ ¬ ['/', '*'] <:+: s := by
  rw [IsBare, List.isChain_iff_forall_rel_of_append_cons_cons]
  constructor
  · intro h
    constructor
    · rintro ⟨front, back, rfl⟩
      exact h (List.append_assoc front _ back) ⟨rfl, .inl rfl⟩
    · rintro ⟨front, back, rfl⟩
      exact h (List.append_assoc front _ back) ⟨rfl, .inr rfl⟩
  · rintro ⟨hline, hblock⟩ c d front back rfl ⟨rfl, rfl | rfl⟩
    · exact hline ⟨front, back, List.append_assoc front _ back⟩
    · exact hblock ⟨front, back, List.append_assoc front _ back⟩

/-- A slash is kept only if the character behind it is kept as well. -/
theorem isBare_stripComments (inBlock : Bool) (line : List Char) :
    IsBare (stripComments inBlock line).1 := by
  fun_induction stripComments inBlock line with
  | case1 => exact .nil
  | case2 => exact .nil
  | case3 rest ih => exact ih
  | case4 c rest hline hblock stripped ih =>
    refine List.isChain_cons.2 ⟨?_, ih⟩
    rintro d hd ⟨rfl, hmarker⟩
    cases rest with
    | nil => simp [stripped, stripComments] at hd
    | cons e tail =>
      have hslash : e ≠ '/' := fun he => hline tail rfl (by rw [he])
      have hstar : e ≠ '*' := fun he => hblock tail rfl (by rw [he])
      have hkept : stripComments false (e :: tail) =
          (e :: (stripComments false tail).1, (stripComments false tail).2) :=
        stripComments_cons (fun _ he => absurd he hslash) fun _ he => absurd he hslash
      obtain rfl : e = d := by simpa [stripped, hkept] using hd
      exact hmarker.elim hslash hstar
  | case5 rest ih => exact ih
  | case6 c rest _ ih => exact ih

theorem stripComments_of_isBare {s : List Char} (h : IsBare s) :
    stripComments false s = (s, false) := by
  induction s with
  | nil => rfl
  | cons c s ih =>
    obtain ⟨hc, hs⟩ := List.isChain_cons.1 h
    have hkept : stripComments false (c :: s) =
        (c :: (stripComments false s).1, (stripComments false s).2) := by
      apply stripComments_cons
      · rintro tail hslash rfl
        exact hc '/' rfl ⟨hslash, .inl rfl⟩
      · rintro tail hslash rfl
        exact hc '*' rfl ⟨hslash, .inr rfl⟩
    rw [hkept, ih hs]

/-- The code of a line is a part of the line, in its order. It holds no marker that opens a comment,
and as code of a line of its own nothing is stripped from it. -/
theorem stripComments_leaves_bare (inBlock : Bool) (line : List Char) :
    (stripComments inBlock line).1.Sublist line ∧
      ¬ ['/', '/'] <:+: (stripComments inBlock line).1 ∧
      ¬ ['/', '*'] <:+: (stripComments inBlock line).1 ∧
      stripComments false (stripComments inBlock line).1 =
        ((stripComments inBlock line).1, false) := by
  have hbare := isBare_stripComments inBlock line
  obtain ⟨hline, hblock⟩ := isBare_iff.1 hbare
  exact ⟨stripComments_sublist inBlock line, hline, hblock, stripComments_of_isBare hbare⟩

/-- Pieces that meet in a star and a slash, which open nothing. -/
example : stripComments true "*/a/ /* b */*/**// /*".toList = ("a/ */ ".toList, true) := by
  decide

end ReleaseGate.Source
