import ReleaseGate.Text.Blank
import ReleaseGate.Text.Line
import ReleaseGate.Source.Comment

/-!
# Line counts

A physical line is logical if something other than white space is left of it once its comments are
stripped. An open block comment is carried from line to line, and never from file to file.
-/
namespace ReleaseGate.Source

structure LineCount where
  files : Nat := 0
  rawLines : Nat := 0
  logicalLines : Nat := 0
deriving DecidableEq, Repr

namespace LineCount

def add (a b : LineCount) : LineCount :=
  ⟨a.files + b.files, a.rawLines + b.rawLines, a.logicalLines + b.logicalLines⟩

instance : Add LineCount := ⟨add⟩

end LineCount

/-- How many of the lines are logical if the first one starts inside or outside a block comment. -/
def countLogical (inBlock : Bool) (lines : List (List Char)) : Nat :=
  (stripLines inBlock lines).countP fun stripped => !Text.isBlank stripped.1

/-- The count of a single file. -/
def LineCount.ofText (s : List Char) : LineCount :=
  let lines := Text.physicalLines s
  ⟨1, lines.length, countLogical false lines⟩

theorem countLogical_le_length (inBlock : Bool) (lines : List (List Char)) :
    countLogical inBlock lines ≤ lines.length := by
  rw [← stripLines_length inBlock lines]
  exact List.countP_le_length

theorem LineCount.ofText_logicalLines_le (s : List Char) :
    (LineCount.ofText s).logicalLines ≤ (LineCount.ofText s).rawLines :=
  countLogical_le_length false (Text.physicalLines s)

end ReleaseGate.Source
