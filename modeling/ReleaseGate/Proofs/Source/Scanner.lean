import ReleaseGate.Proofs.Text.LineNumber
import ReleaseGate.Source.LineCount

/-!
# Source text in one pass

A scanner goes through a whole text from left to right and says of each character whether it is
code. A line of the text is logical exactly if it holds a character of code that is not white space.
-/
namespace ReleaseGate.Source

open Text

inductive Mode where
  | code
  | lineComment
  | blockComment
deriving DecidableEq, Repr

/-- Whether each character of a text is code. The two characters of a marker are read together. -/
def classify : Mode → List Char → List Bool
  | _, [] => []
  | .code, '/' :: '/' :: rest => false :: false :: classify .lineComment rest
  | .code, '/' :: '*' :: rest => false :: false :: classify .blockComment rest
  | .code, _ :: rest => true :: classify .code rest
  | .lineComment, c :: rest =>
    false :: classify (if c ∈ lineBreaks then .code else .lineComment) rest
  | .blockComment, '*' :: '/' :: rest => false :: false :: classify .code rest
  | .blockComment, _ :: rest => false :: classify .blockComment rest

/-- How the scanner stands at the end of a text. -/
def modeAfter : Mode → List Char → Mode
  | mode, [] => mode
  | .code, '/' :: '/' :: rest => modeAfter .lineComment rest
  | .code, '/' :: '*' :: rest => modeAfter .blockComment rest
  | .code, _ :: rest => modeAfter .code rest
  | .lineComment, c :: rest => modeAfter (if c ∈ lineBreaks then .code else .lineComment) rest
  | .blockComment, '*' :: '/' :: rest => modeAfter .code rest
  | .blockComment, _ :: rest => modeAfter .blockComment rest

/-- A position holds a character of code, neither white space nor a break, if the text is read from
the mode on. -/
def holdsCode (mode : Mode) (s : List Char) (i : ℕ) : Bool :=
  (classify mode s)[i]? == some true && s[i]?.any fun c => !isSpace c && c ∉ lineBreaks

/-- No marker is made of the end of one text and the start of the other. -/
def Apart (a b : List Char) : Prop :=
  ∀ c ∈ a.getLast?, ∀ d ∈ b.head?, ¬ (c = '/' ∧ (d = '/' ∨ d = '*') ∨ c = '*' ∧ d = '/')

theorem Apart.tail {c : Char} {a b : List Char} (h : Apart (c :: a) b) : Apart a b := by
  intro d hd
  cases a with
  | nil => simp at hd
  | cons e a => exact h d (by rwa [List.getLast?_cons_cons])

theorem classify_length (mode : Mode) (s : List Char) : (classify mode s).length = s.length := by
  fun_induction classify mode s with
  | case1 => rfl
  | case2 rest ih => simp [ih]
  | case3 rest ih => simp [ih]
  | case4 c rest _ _ ih => simp [ih]
  | case5 c rest ih => simp [ih]
  | case6 rest ih => simp [ih]
  | case7 c rest _ ih => simp [ih]

/-- What is appended opens and closes no comment together with a character that does neither. -/
theorem Apart.ne_cons {c e : Char} {a b : List Char} (h : Apart (c :: a) b)
    (hmarker : c = '/' ∧ (e = '/' ∨ e = '*') ∨ c = '*' ∧ e = '/') (hd : ∀ tail, a ≠ e :: tail)
    (tail : List Char) : a ++ b ≠ e :: tail := by
  cases a with
  | nil =>
    rintro rfl
    exact h c rfl e rfl hmarker
  | cons f a =>
    intro he
    exact hd a (by rw [(List.cons.inj he).1])

theorem classify_append {a b : List Char} (mode : Mode) (h : Apart a b) :
    classify mode (a ++ b) = classify mode a ++ classify (modeAfter mode a) b := by
  fun_induction classify mode a with
  | case1 => rw [modeAfter]; rfl
  | case2 rest ih => simp [classify, modeAfter, ih h.tail.tail]
  | case3 rest ih => simp [classify, modeAfter, ih h.tail.tail]
  | case4 c rest hl hb ih =>
    rw [List.cons_append, classify, modeAfter, ih h.tail, List.cons_append]
    · exact hl
    · exact hb
    · rintro tail rfl
      exact h.ne_cons (.inl ⟨rfl, .inl rfl⟩) (fun tail => hl tail rfl) tail
    · rintro tail rfl
      exact h.ne_cons (.inl ⟨rfl, .inr rfl⟩) (fun tail => hb tail rfl) tail
  | case5 c rest ih => simp [classify, modeAfter, ih h.tail]
  | case6 rest ih => simp [classify, modeAfter, ih h.tail.tail]
  | case7 c rest hc ih =>
    rw [List.cons_append, classify, modeAfter, ih h.tail, List.cons_append]
    · exact hc
    · rintro tail rfl
      exact h.ne_cons (.inr ⟨rfl, rfl⟩) (fun tail => hc tail rfl) tail

/-- A break belongs to no marker. -/
theorem ne_of_isLineBreak {c : Char} (h : isLineBreak c = true) : c ≠ '/' ∧ c ≠ '*' := by
  constructor <;> (rintro rfl; exact absurd h (by decide))

theorem apart_of_terminates {t rest : List Char} (h : Terminates isLineBreak t rest)
    (a : List Char) :
    Apart a (t ++ rest) ∧ Apart t rest := by
  cases h with
  | pair => simp [Apart]
  | single hc =>
    obtain ⟨hslash, hstar⟩ := ne_of_isLineBreak hc
    simp [Apart, hslash, hstar]

/-- How the scanner stands at the start of a line. -/
def Mode.atLine (inBlock : Bool) : Mode :=
  if inBlock then .blockComment else .code

/-- A line comment ends with its line, and a block comment does not. -/
theorem modeAfter_terminator {t rest : List Char} (h : Terminates isLineBreak t rest)
    (mode : Mode) : modeAfter mode t = .atLine (mode == .blockComment) := by
  cases h with
  | pair => cases mode <;> rfl
  | single hc =>
    cases mode with
    | code => simp [modeAfter, Mode.atLine]
    | lineComment => simp [modeAfter, ← isLineBreak_iff, hc, Mode.atLine]
    | blockComment => simp [modeAfter, Mode.atLine]

/-- The characters that are marked as code. -/
def codeOf (s : List Char) (marks : List Bool) : List Char :=
  ((s.zip marks).filter (·.2)).map (·.1)

theorem codeOf_cons_true (c : Char) (s : List Char) (marks : List Bool) :
    codeOf (c :: s) (true :: marks) = c :: codeOf s marks := rfl

theorem codeOf_cons_false (c : Char) (s : List Char) (marks : List Bool) :
    codeOf (c :: s) (false :: marks) = codeOf s marks := rfl

theorem not_mem_lineBreaks {line : List Char} (h : Unbroken isLineBreak line) {c : Char}
    (hc : c ∈ line) : c ∉ lineBreaks := by
  rw [← isLineBreak_iff, (h c hc).1]
  exact Bool.false_ne_true

/-- A line comment takes the rest of its line. -/
theorem codeOf_lineComment {line : List Char} (h : Unbroken isLineBreak line) :
    codeOf line (classify .lineComment line) = [] ∧ modeAfter .lineComment line = .lineComment := by
  induction line with
  | nil => exact ⟨rfl, rfl⟩
  | cons c line ih =>
    have hc : c ∉ lineBreaks := not_mem_lineBreaks h List.mem_cons_self
    rw [classify, modeAfter, if_neg hc, codeOf_cons_false]
    exact ih h.tail

/-- On a single line the scanner keeps what stripping leaves. -/
theorem stripComments_eq {line : List Char} (h : Unbroken isLineBreak line) (inBlock : Bool) :
    stripComments inBlock line =
      (codeOf line (classify (.atLine inBlock) line),
        modeAfter (.atLine inBlock) line == .blockComment) := by
  fun_induction stripComments inBlock line with
  | case1 inBlock => cases inBlock <;> rfl
  | case2 rest =>
    obtain ⟨hcode, hmode⟩ := codeOf_lineComment h.tail.tail
    simp [Mode.atLine, classify, modeAfter, codeOf_cons_false, hcode, hmode]
  | case3 rest ih =>
    rw [ih h.tail.tail]
    rfl
  | case4 c rest hl hb stripped ih =>
    have hclassify : classify .code (c :: rest) = true :: classify .code rest := by
      rw [classify]
      · exact hl
      · exact hb
    have hmode : modeAfter .code (c :: rest) = modeAfter .code rest := by
      rw [modeAfter]
      · exact hl
      · exact hb
    simp only [stripped, ih h.tail, Mode.atLine, Bool.false_eq_true, if_false, hclassify, hmode,
      codeOf_cons_true]
  | case5 rest ih =>
    rw [ih h.tail.tail]
    rfl
  | case6 c rest hc ih =>
    have hclassify : classify .blockComment (c :: rest) = false :: classify .blockComment rest := by
      rw [classify]
      exact hc
    have hmode : modeAfter .blockComment (c :: rest) = modeAfter .blockComment rest := by
      rw [modeAfter]
      exact hc
    simp only [ih h.tail, Mode.atLine, if_true, hclassify, hmode, codeOf_cons_false]

theorem mem_codeOf_iff {s : List Char} {marks : List Bool} {c : Char} :
    c ∈ codeOf s marks ↔ ∃ i : ℕ, s[i]? = some c ∧ marks[i]? = some true := by
  have hzip : c ∈ codeOf s marks ↔ (c, true) ∈ s.zip marks := by simp [codeOf]
  simp only [hzip, List.mem_iff_getElem?, List.getElem?_zip_eq_some]

theorem holdsCode_iff {mode : Mode} {s : List Char} {i : ℕ} :
    holdsCode mode s i = true ↔
      ∃ c, s[i]? = some c ∧ (classify mode s)[i]? = some true ∧ isSpace c = false ∧
        c ∉ lineBreaks := by
  simp only [holdsCode, Bool.and_eq_true, beq_iff_eq, Option.any_eq_true, Bool.not_eq_true',
    decide_eq_true_eq]
  constructor
  · rintro ⟨hm, c, hc, hcode⟩
    exact ⟨c, hc, hm, hcode⟩
  · rintro ⟨c, hc, hm, hcode⟩
    exact ⟨hm, c, hc, hcode⟩

/-- A line is not blank without its comments exactly if it holds code. -/
theorem not_isBlank_codeOf {line : List Char} (hline : Unbroken isLineBreak line) (mode : Mode) :
    (!isBlank (codeOf line (classify mode line))) =
      (List.range line.length).any (holdsCode mode line) := by
  rw [Bool.eq_iff_iff, Bool.not_eq_true', isBlank_eq_false_iff, List.any_eq_true]
  constructor
  · rintro ⟨c, hc, hspace⟩
    obtain ⟨i, hi, hm⟩ := mem_codeOf_iff.1 hc
    obtain ⟨hlt, -⟩ := List.getElem?_eq_some_iff.1 hi
    have hbreak : c ∉ lineBreaks := not_mem_lineBreaks hline (List.mem_of_getElem? hi)
    exact ⟨i, List.mem_range.2 hlt, holdsCode_iff.2 ⟨c, hi, hm, hspace, hbreak⟩⟩
  · rintro ⟨i, -, h⟩
    obtain ⟨c, hi, hm, hspace, -⟩ := holdsCode_iff.1 h
    exact ⟨c, mem_codeOf_iff.2 ⟨i, hi, hm⟩, hspace⟩

section Line

variable {line t rest : List Char} (hline : Unbroken isLineBreak line)
  (ht : Terminates isLineBreak t rest) (mode : Mode)

include ht in
theorem classify_terminated :
    classify mode (line ++ (t ++ rest)) = classify mode line ++
      (classify (modeAfter mode line) t ++
        classify (.atLine (modeAfter mode line == .blockComment)) rest) := by
  obtain ⟨hstart, hend⟩ := apart_of_terminates ht line
  rw [classify_append _ hstart, classify_append _ hend, modeAfter_terminator ht]

include ht in
theorem holdsCode_rest (i : ℕ) :
    holdsCode mode (line ++ (t ++ rest)) ((line ++ t).length + i) =
      holdsCode (.atLine (modeAfter mode line == .blockComment)) rest i := by
  have hmarks : (classify mode line ++ classify (modeAfter mode line) t).length =
      (line ++ t).length := by
    simp [classify_length]
  have hchar : (line ++ (t ++ rest))[(line ++ t).length + i]? = rest[i]? := by
    rw [← List.append_assoc, List.getElem?_append_right (Nat.le_add_right _ _),
      Nat.add_sub_cancel_left]
  rw [holdsCode, hchar, classify_terminated ht, ← List.append_assoc, ← hmarks,
    List.getElem?_append_right (Nat.le_add_right _ _), Nat.add_sub_cancel_left]
  rfl

include ht in
theorem holdsCode_line {i : ℕ} (hi : i < line.length) :
    holdsCode mode (line ++ (t ++ rest)) i = holdsCode mode line i := by
  have hmarks : i < (classify mode line).length := by rwa [classify_length]
  rw [holdsCode, holdsCode, classify_terminated ht, List.getElem?_append_left hi,
    List.getElem?_append_left hmarks]

include ht in
/-- No position of a terminator holds code. -/
theorem holdsCode_terminator {i : ℕ} (hle : line.length ≤ i) (hlt : i < (line ++ t).length) :
    holdsCode mode (line ++ (t ++ rest)) i = false := by
  have hmem : ∀ c ∈ t, c ∈ lineBreaks := by
    intro c hc
    cases ht with
    | pair =>
      rcases List.mem_cons.1 hc with rfl | hc
      · decide
      · rw [List.mem_singleton.1 hc]
        decide
    | single hbreak =>
      rw [List.mem_singleton.1 hc]
      exact isLineBreak_iff.1 hbreak
  rw [← Bool.not_eq_true, holdsCode_iff]
  rintro ⟨c, hc, -, -, hbreak⟩
  rw [← List.append_assoc, List.getElem?_append_left hlt, List.getElem?_append_right hle] at hc
  exact hbreak (hmem c (List.mem_of_getElem? hc))

include ht in
theorem any_holdsCode_line :
    (List.range (line ++ t).length).any (holdsCode mode (line ++ (t ++ rest))) =
      (List.range line.length).any (holdsCode mode line) := by
  rw [Bool.eq_iff_iff]
  simp only [List.any_eq_true, List.mem_range]
  constructor
  · rintro ⟨i, hi, h⟩
    by_cases hlt : i < line.length
    · exact ⟨i, hlt, holdsCode_line ht mode hlt ▸ h⟩
    · rw [holdsCode_terminator ht mode (Nat.le_of_not_lt hlt) hi] at h
      exact absurd h Bool.false_ne_true
  · rintro ⟨i, hi, h⟩
    refine ⟨i, ?_, (holdsCode_line ht mode hi).trans h⟩
    rw [List.length_append]
    exact Nat.lt_add_right _ hi

end Line

theorem countLogical_cons (inBlock : Bool) (line : List Char) (lines : List (List Char)) :
    countLogical inBlock (line :: lines) = (!isBlank (stripComments inBlock line).1).toNat +
      countLogical (stripComments inBlock line).2 lines := by
  rw [countLogical, stripLines, List.countP_cons, Nat.add_comm]
  cases isBlank (stripComments inBlock line).1 <;> rfl

theorem countLogical_physicalLines (inBlock : Bool) (s : List Char) :
    countLogical inBlock (physicalLines s) =
      (linesWhere s (holdsCode (.atLine inBlock) s)).card := by
  induction s using lines_induction generalizing inBlock with
  | nil => rfl
  | last line hne hline =>
    rw [physicalLines, splitLines_unbroken hline hne, countLogical_cons, stripComments_eq hline,
      not_isBlank_codeOf hline, card_linesWhere_unbroken hline]
    rfl
  | line line t rest hline ht ih =>
    rw [physicalLines, splitLines_terminated hline ht, countLogical_cons, stripComments_eq hline,
      not_isBlank_codeOf hline, ← physicalLines, ih, card_linesWhere_terminated hline ht,
      any_holdsCode_line ht]
    simp only [holdsCode_rest ht]

/-- The count of a text is that of a scanner that reads it in one pass: its lines, and those lines
that hold code which is not white space. -/
theorem LineCount.ofText_eq (s : List Char) :
    LineCount.ofText s =
      { files := 1
        rawLines := (linesWhere s fun _ => true).card
        logicalLines := (linesWhere s (holdsCode .code s)).card } := by
  have hlogical := countLogical_physicalLines false s
  rw [LineCount.ofText, hlogical, length_physicalLines]
  rfl

/-- Overlapping markers, and a separator that ends a line without being white space. -/
example : linesWhere "a\n/*/ b\r\n*/ c //* d\u001C".toList
    (holdsCode .code "a\n/*/ b\r\n*/ c //* d\u001C".toList) = {0, 2} := by
  decide +kernel

end ReleaseGate.Source
