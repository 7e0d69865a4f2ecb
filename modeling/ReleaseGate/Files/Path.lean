/-!
# Path names

A path name is text. It is joined and shown as it stands, without being normalised.
-/
namespace ReleaseGate.Files

abbrev Path := String

namespace Path

def isAbsolute (p : Path) : Bool :=
  p.toList.head? == some '/'

/-- Puts `p` under `root`; an absolute name replaces it. -/
def join (root p : Path) : Path :=
  if isAbsolute p || root.isEmpty then p
  else if root.toList.getLast? == some '/' then root ++ p
  else root ++ "/" ++ p

/-- The parts between the slashes. -/
def splitSlashes : List Char → List (List Char)
  | [] => [[]]
  | c :: rest =>
    if c = '/' then [] :: splitSlashes rest
    else
      match splitSlashes rest with
      | [] => [[c]]
      | part :: parts => (c :: part) :: parts

/-- The parts of a name. An empty part stands for the place itself, as a dot does; that of the
leading slash is left out. -/
def parts (p : Path) : List String :=
  let all := (splitSlashes p.toList).map String.ofList
  if isAbsolute p then all.drop 1 else all

theorem join_empty (p : Path) : join "" p = p := by
  simp [join]

theorem join_of_isAbsolute {p : Path} (root : Path) (h : isAbsolute p = true) :
    join root p = p := by
  simp [join, h]

end Path

end ReleaseGate.Files
