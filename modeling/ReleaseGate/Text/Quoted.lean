import ReleaseGate.Text.Unprintable
import ReleaseGate.Text.Extending

/-!
# Quoted text

How a text is quoted in a message: between double quotes, with everything that a reader could not
see or could not tell apart escaped.
-/
namespace ReleaseGate.Text

/-- The fillers of Hangul syllables: letters that show nothing. -/
def isFiller (c : Char) : Bool :=
  c == '\u115F' || c == '\u1160' || c == '\u3164' || c == '\uFFA0'

/-- The Katakana sound marks of half width: they join the character before them, but take a place
of their own. -/
def isSpacingMark (c : Char) : Bool :=
  c == '\uFF9E' || c == '\uFF9F'

/-- Whether a reader could not see a character, or could not tell it from the one before it. -/
def isHidden (c : Char) : Bool :=
  isUnprintable c || isFiller c || (isExtending c && !isSpacingMark c)

def escape (c : Char) : List Char :=
  if c = '"' then ['\\', '"']
  else if c = '\\' then ['\\', '\\']
  else if c = '\n' then ['\\', 'n']
  else if c = '\r' then ['\\', 'r']
  else if c = '\t' then ['\\', 't']
  else if c = '\x00' then ['\\', '0']
  else if isHidden c then
    ['\\', 'u', '\x7b'] ++ Nat.toDigits 16 c.toNat ++ ['\x7d']
  else [c]

def quoted (s : String) : String :=
  String.ofList ('"' :: (s.toList.flatMap escape ++ ['"']))

end ReleaseGate.Text
