/-!
# Comments in source text

A line comment runs from `//` to the end of its line, a block comment from the first `/*` to the
next `*/`, over as many lines as it takes. Literals are not told apart from code, and the two
characters of a marker are read together, so `/*/` opens a block comment and does not close it.
-/
namespace ReleaseGate.Source

/-- The code of one line, and whether a block comment is open at its end. -/
def stripComments : Bool → List Char → List Char × Bool
  | inBlock, [] => ([], inBlock)
  | false, '/' :: '/' :: _ => ([], false)
  | false, '/' :: '*' :: rest => stripComments true rest
  | false, c :: rest =>
    let stripped := stripComments false rest
    (c :: stripped.1, stripped.2)
  | true, '*' :: '/' :: rest => stripComments false rest
  | true, _ :: rest => stripComments true rest

/-- A character that opens no comment is kept. -/
theorem stripComments_cons {c : Char} {rest : List Char}
    (hline : ∀ tail, c = '/' → rest ≠ '/' :: tail)
    (hblock : ∀ tail, c = '/' → rest ≠ '*' :: tail) :
    stripComments false (c :: rest) =
      (c :: (stripComments false rest).1, (stripComments false rest).2) := by
  rw [stripComments]
  · exact hline
  · exact hblock

theorem stripComments_sublist (inBlock : Bool) (line : List Char) :
    (stripComments inBlock line).1.Sublist line := by
  fun_induction stripComments inBlock line with
  | case1 => exact List.nil_sublist _
  | case2 => exact List.nil_sublist _
  | case3 rest ih => exact (ih.cons _).cons _
  | case4 c rest _ _ _ ih => exact ih.cons_cons c
  | case5 rest ih => exact (ih.cons _).cons _
  | case6 c rest _ ih => exact ih.cons _

/-- Strips line after line, each in the state that the one before it ends in. -/
def stripLines : Bool → List (List Char) → List (List Char × Bool)
  | _, [] => []
  | inBlock, line :: lines =>
    let stripped := stripComments inBlock line
    stripped :: stripLines stripped.2 lines

theorem stripLines_length (inBlock : Bool) (lines : List (List Char)) :
    (stripLines inBlock lines).length = lines.length := by
  induction lines generalizing inBlock with
  | nil => rfl
  | cons line lines ih => simp [stripLines, ih]

end ReleaseGate.Source
