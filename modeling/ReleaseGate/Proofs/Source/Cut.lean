import ReleaseGate.Proofs.Source.Scanner

/-!
# Source texts cut in two

Where a text is cut behind the end of a line, the counts of its two parts add up. Of what stands
before the cut the second part depends only on whether a block comment is open there.
-/
namespace ReleaseGate.Source

open Text

/-- Whether a block comment is open behind the lines. -/
def openAfter : Bool → List (List Char) → Bool
  | inBlock, [] => inBlock
  | inBlock, line :: lines => openAfter (stripComments inBlock line).2 lines

theorem countLogical_append (inBlock : Bool) (a b : List (List Char)) :
    countLogical inBlock (a ++ b) =
      countLogical inBlock a + countLogical (openAfter inBlock a) b := by
  induction a generalizing inBlock with
  | nil => exact (Nat.zero_add _).symm
  | cons line a ih =>
    rw [List.cons_append, countLogical_cons, countLogical_cons, ih, openAfter, Nat.add_assoc]

theorem modeAfter_append {a b : List Char} (mode : Mode) (h : Apart a b) :
    modeAfter mode (a ++ b) = modeAfter (modeAfter mode a) b := by
  fun_induction modeAfter mode a with
  | case1 => rfl
  | case2 rest ih => simp [modeAfter, ih h.tail.tail]
  | case3 rest ih => simp [modeAfter, ih h.tail.tail]
  | case4 c rest hl hb ih =>
    rw [List.cons_append, modeAfter, ih h.tail]
    · rintro tail rfl
      exact h.ne_cons (.inl ⟨rfl, .inl rfl⟩) (fun tail => hl tail rfl) tail
    · rintro tail rfl
      exact h.ne_cons (.inl ⟨rfl, .inr rfl⟩) (fun tail => hb tail rfl) tail
  | case5 c rest ih => simp [modeAfter, ih h.tail]
  | case6 rest ih => simp [modeAfter, ih h.tail.tail]
  | case7 c rest hc ih =>
    rw [List.cons_append, modeAfter, ih h.tail]
    rintro tail rfl
    exact h.ne_cons (.inr ⟨rfl, rfl⟩) (fun tail => hc tail rfl) tail

/-- What is carried from line to line is what a single scan of the text comes to. -/
theorem openAfter_physicalLines (inBlock : Bool) (s : List Char) :
    openAfter inBlock (physicalLines s) = (modeAfter (.atLine inBlock) s == .blockComment) := by
  induction s using lines_induction generalizing inBlock with
  | nil => cases inBlock <;> rfl
  | last line hne hline =>
    rw [physicalLines, splitLines_unbroken hline hne, openAfter, stripComments_eq hline]
    rfl
  | line line t rest hline ht ih =>
    obtain ⟨hstart, hend⟩ := apart_of_terminates ht line
    rw [physicalLines, splitLines_terminated hline ht, openAfter, stripComments_eq hline,
      ← physicalLines, ih, modeAfter_append _ hstart, modeAfter_append _ hend,
      modeAfter_terminator ht]

theorem stripComments_of_unclosed {line : List Char} (h : ¬ ['*', '/'] <:+: line) :
    stripComments true line = ([], true) := by
  induction line with
  | nil => rfl
  | cons c line ih =>
    rw [stripComments, ih fun hmarker => h (List.infix_cons hmarker)]
    rintro tail rfl rfl
    exact h ⟨[], tail, rfl⟩

/-- Nothing is code in lines of which none closes the comment. -/
theorem countLogical_of_unclosed {s : List Char} (h : ¬ ['*', '/'] <:+: s) :
    countLogical true (physicalLines s) = 0 := by
  induction s using lines_induction with
  | nil => rfl
  | last line hne hline =>
    rw [physicalLines, splitLines_unbroken hline hne, countLogical_cons,
      stripComments_of_unclosed h]
    rfl
  | line line t rest hline ht ih =>
    have hfront : ¬ ['*', '/'] <:+: line := fun hmarker =>
      h (hmarker.trans (List.prefix_append _ _).isInfix)
    have hback : ¬ ['*', '/'] <:+: rest := fun hmarker =>
      h (hmarker.trans ((List.suffix_append _ _).trans (List.suffix_append _ _)).isInfix)
    rw [physicalLines, splitLines_terminated hline ht, countLogical_cons,
      stripComments_of_unclosed hfront, ← physicalLines, ih hback]
    rfl

/-- The lines of a text that is cut behind the end of a line are those of its parts, and of the
second part as many are logical as if it were read from the state in which the first part ends: as
many as by itself where that state is outside of block comments, and none where it is inside of one
that is not closed any more. -/
theorem LineCount.ofText_append {a b : List Char} (h : EndsBefore isLineBreak a b) :
    (LineCount.ofText (a ++ b)).rawLines =
        (LineCount.ofText a).rawLines + (LineCount.ofText b).rawLines ∧
      (LineCount.ofText (a ++ b)).logicalLines = (LineCount.ofText a).logicalLines +
        countLogical (modeAfter .code a == .blockComment) (physicalLines b) ∧
      (modeAfter .code a ≠ .blockComment →
        (LineCount.ofText (a ++ b)).logicalLines =
          (LineCount.ofText a).logicalLines + (LineCount.ofText b).logicalLines) ∧
      (modeAfter .code a = .blockComment → ¬ ['*', '/'] <:+: b →
        (LineCount.ofText (a ++ b)).logicalLines = (LineCount.ofText a).logicalLines) := by
  have hlines : physicalLines (a ++ b) = physicalLines a ++ physicalLines b := splitLines_append h
  have hlogical : (LineCount.ofText (a ++ b)).logicalLines = (LineCount.ofText a).logicalLines +
      countLogical (modeAfter .code a == .blockComment) (physicalLines b) := by
    have hopen : openAfter false (physicalLines a) = (modeAfter .code a == .blockComment) :=
      openAfter_physicalLines false a
    calc countLogical false (physicalLines (a ++ b))
        = countLogical false (physicalLines a) +
            countLogical (openAfter false (physicalLines a)) (physicalLines b) := by
          rw [hlines, countLogical_append]
      _ = _ := by rw [hopen]; rfl
  refine ⟨?_, hlogical, fun hcode => ?_, fun hblock hunclosed => ?_⟩
  · exact (congrArg List.length hlines).trans List.length_append
  · rw [hlogical, beq_eq_false_iff_ne.2 hcode]
    rfl
  · rw [hlogical, hblock, beq_self_eq_true, countLogical_of_unclosed hunclosed, Nat.add_zero]

/-- A comment is opened, and a line of it looks like a line comment. -/
def openedText : List Char :=
  "x /* y\r\n// z\u2028".toList

/-- The two characters that would close the comment stand on two lines. -/
def tornMarker : List Char :=
  "c *\n/ d\r".toList

theorem LineCount.ofText_append_tornMarker :
    EndsBefore isLineBreak openedText tornMarker ∧ modeAfter .code openedText = .blockComment ∧
      ¬ ['*', '/'] <:+: tornMarker ∧
      (LineCount.ofText (openedText ++ tornMarker)).rawLines = 4 ∧
      (LineCount.ofText (openedText ++ tornMarker)).logicalLines = 1 := by
  have hends : EndsBefore isLineBreak openedText tornMarker := by
    intro c hc
    obtain rfl : '\u2028' = c := Option.some.inj hc
    exact ⟨by decide, fun ⟨_, hreturn, _⟩ => absurd hreturn (by decide)⟩
  have hopen : modeAfter .code openedText = .blockComment := by decide
  have hunclosed : ¬ ['*', '/'] <:+: tornMarker := by decide
  obtain ⟨hraw, -, -, hlogical⟩ := LineCount.ofText_append hends
  exact ⟨hends, hopen, hunclosed, hraw.trans (by decide),
    (hlogical hopen hunclosed).trans (by decide)⟩

end ReleaseGate.Source
