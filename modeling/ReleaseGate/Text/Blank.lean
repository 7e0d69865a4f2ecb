/-!
# White space

The characters with the Unicode property White_Space, and text trimmed of them.
-/
namespace ReleaseGate.Text

def isSpace (c : Char) : Bool :=
  let n := c.toNat
  (9 ≤ n && n ≤ 13) || n == 0x20 || n == 0x85 || n == 0xA0 || n == 0x1680 ||
    (0x2000 ≤ n && n ≤ 0x200A) || n == 0x2028 || n == 0x2029 || n == 0x202F || n == 0x205F ||
    n == 0x3000

/-- Nothing but white space; the empty text is blank too. -/
def isBlank (s : List Char) : Bool :=
  s.all isSpace

theorem isBlank_nil : isBlank [] = true := rfl

theorem isBlank_eq_false_iff {s : List Char} : isBlank s = false ↔ ∃ c ∈ s, isSpace c = false := by
  simp [isBlank]

end ReleaseGate.Text
