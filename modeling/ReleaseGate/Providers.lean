import ReleaseGate.Text.Blank
import ReleaseGate.Text.Search

/-!
# Provider records

Provider metadata is source text that holds one literal per provider. The counts come from three
forms found anywhere in the text: a canonical id, a list of aliases on one line, and the
onboarding family.
-/
namespace ReleaseGate.Providers

open Text

structure Counts where
  canonicalIds : Nat := 0
  aliasIds : Nat := 0
  families : Nat := 0
deriving DecidableEq, Repr

/-- Some text other than a double quote, between two of them. -/
def quotedItem : Form (List Char)
  | '"' :: rest =>
    match rest.span (· != '"') with
    | (item, '"' :: tail) => if item.isEmpty then none else some (item, tail)
    | _ => none
  | _ => none

/-- The field name, white space, and a quoted item. -/
def canonicalId : Form (List Char) := fun s => do
  let rest ← after? "canonical_id:".toList s
  quotedItem (rest.dropWhile isSpace)

/-- Up to the nearest closing bracket with a comma behind it, if the line holds one. -/
def listBody : Form (List Char)
  | [] => none
  | ']' :: ',' :: tail => some ([], tail)
  | c :: rest =>
    if c = '\n' then none
    else (listBody rest).map fun found => (c :: found.1, found.2)

def aliasList : Form (List Char) := fun s => do
  let rest ← after? "aliases:".toList s
  let body ← after? "&[".toList (rest.dropWhile isSpace)
  listBody body

/-- ASCII letters, ASCII digits and the underscore. -/
def isFamilyChar (c : Char) : Bool :=
  c.isAlphanum || c == '_'

def family : Form (List Char) := fun s => do
  let rest ← after? "onboarding:".toList s
  let rest ← after? "ProviderOnboardingMode::".toList (rest.dropWhile isSpace)
  let name := rest.takeWhile isFamilyChar
  if name.isEmpty then none else some (name, rest.dropWhile isFamilyChar)

/-- Families are counted once each, ids and aliases as often as they occur. -/
def Counts.ofText (s : List Char) : Counts where
  canonicalIds := (allMatches canonicalId s).length
  aliasIds := ((allMatches aliasList s).flatMap (allMatches quotedItem)).length
  families := (allMatches family s).eraseDups.length

end ReleaseGate.Providers
