import ReleaseGate.Proofs.Text.Line

/-!
# Texts made up of lines

The physical lines of a text make it up, together with what ends them, and no other lines do.
-/
namespace ReleaseGate.Text

/-- Lines without breaks that make up a text, where one terminator stands behind each. Only the last
line may go without, and then it is not empty. -/
inductive MakesUp : List (List Char) → List Char → Prop
  | nil : MakesUp [] []
  | last {line : List Char} (hline : ∀ c ∈ line, c ∉ lineBreaks) (hne : line ≠ []) :
    MakesUp [line] line
  | pair {line : List Char} {lines : List (List Char)} {rest : List Char}
    (hline : ∀ c ∈ line, c ∉ lineBreaks) (h : MakesUp lines rest) :
    MakesUp (line :: lines) (line ++ '\r' :: '\n' :: rest)
  | single {line : List Char} {lines : List (List Char)} {c : Char} {rest : List Char}
    (hline : ∀ c ∈ line, c ∉ lineBreaks) (hc : c ∈ lineBreaks) (hpair : ¬ IsPair c rest)
    (h : MakesUp lines rest) : MakesUp (line :: lines) (line ++ c :: rest)

theorem isLineBreak_eq_false_iff {c : Char} : isLineBreak c = false ↔ c ∉ lineBreaks := by
  rw [← isLineBreak_iff, Bool.not_eq_true]

theorem unbroken_iff {line : List Char} :
    Unbroken isLineBreak line ↔ ∀ c ∈ line, c ∉ lineBreaks := by
  constructor
  · intro h c hc
    exact isLineBreak_eq_false_iff.1 (h c hc).1
  · intro h c hc
    have hbreak := isLineBreak_eq_false_iff.2 (h c hc)
    exact ⟨hbreak, ne_return_of_not_isLineBreak hbreak⟩

theorem makesUp_physicalLines (s : List Char) : MakesUp (physicalLines s) s := by
  induction s using lines_induction with
  | nil => exact .nil
  | last line hne hline =>
    rw [physicalLines, splitLines_unbroken hline hne]
    exact .last (unbroken_iff.1 hline) hne
  | line line t rest hline ht ih =>
    rw [physicalLines, splitLines_terminated hline ht]
    cases ht with
    | pair => exact .pair (unbroken_iff.1 hline) ih
    | single hc hpair => exact .single (unbroken_iff.1 hline) (isLineBreak_iff.1 hc) hpair ih

/-- Where a line ends is told by the text behind it, so the lines are those that are cut off. -/
theorem MakesUp.physicalLines_eq {lines : List (List Char)} {s : List Char}
    (h : MakesUp lines s) : physicalLines s = lines := by
  induction h with
  | nil => exact physicalLines_nil
  | last hline hne => exact splitLines_unbroken (unbroken_iff.2 hline) hne
  | @pair line lines rest hline h ih =>
    have hcut : physicalLines (line ++ (['\r', '\n'] ++ rest)) = line :: physicalLines rest :=
      splitLines_terminated (unbroken_iff.2 hline) (.pair rest)
    rwa [ih] at hcut
  | @single line lines c rest hline hc hpair h ih =>
    have hcut : physicalLines (line ++ ([c] ++ rest)) = line :: physicalLines rest :=
      splitLines_terminated (unbroken_iff.2 hline) (.single (isLineBreak_iff.2 hc) hpair)
    rwa [ih] at hcut

/-- The physical lines of a text are the only lines that make it up. -/
theorem physicalLines_eq_iff {s : List Char} {lines : List (List Char)} :
    physicalLines s = lines ↔ MakesUp lines s := by
  constructor
  · rintro rfl
    exact makesUp_physicalLines s
  · exact MakesUp.physicalLines_eq

example : physicalLines "\r\n\r\ra\u2028\n\u0085b\r".toList =
    [[], [], [], ['a'], [], [], ['b']] := by
  decide

end ReleaseGate.Text
