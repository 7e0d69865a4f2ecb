/-!
# Lines

A text is cut at its line breaks. A carriage return directly before a line feed belongs to it, and a
break that ends the text opens no further line.
-/
namespace ReleaseGate.Text

/-- Cuts at the characters that `isBreak` names and at the pair of carriage return and line feed. -/
def splitLines (isBreak : Char → Bool) : List Char → List (List Char)
  | [] => []
  | '\r' :: '\n' :: rest => [] :: splitLines isBreak rest
  | c :: rest =>
    if isBreak c then [] :: splitLines isBreak rest
    else
      match splitLines isBreak rest with
      | [] => [[c]]
      | line :: lines => (c :: line) :: lines

/-- Line feed, vertical tab, form feed, carriage return, the three information separators above the
unit separator, next line, line separator and paragraph separator. -/
def isLineBreak (c : Char) : Bool :=
  let n := c.toNat
  (0x0A ≤ n && n ≤ 0x0D) || (0x1C ≤ n && n ≤ 0x1E) || n == 0x85 || n == 0x2028 || n == 0x2029

def physicalLines (s : List Char) : List (List Char) :=
  splitLines isLineBreak s

/-- Lines that only a line feed ends, as test runners write them. -/
def feedLines (s : List Char) : List (List Char) :=
  splitLines (· == '\n') s

theorem splitLines_nil (isBreak : Char → Bool) : splitLines isBreak [] = [] := by
  simp [splitLines]

theorem physicalLines_nil : physicalLines [] = [] :=
  splitLines_nil _

end ReleaseGate.Text
