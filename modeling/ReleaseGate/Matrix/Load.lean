import ReleaseGate.Files.Glob
import ReleaseGate.Json.Decode
import ReleaseGate.Matrix.Check

/-!
# Checking a matrix against files
-/
namespace ReleaseGate.Matrix

open Files

def defaultPath : Path := "docs/traceability_matrix.json"

def isPattern (path : Path) : Bool :=
  path.toList.any fun c => c == '*' || c == '?' || c == '['

/-- Whether a path of a matrix leads to something, seen from the root of the code base. -/
def isPresent (fs : FileSystem) (root : Path) (path : Path) : Bool :=
  let full := root.join path
  if isPattern path then fs.matchesAny full else fs.itemExists full

inductive LoadError where
  | missing (path : Path)
  | unread (path : Path)
  | undecodable (path : Path) (fault : Json.Fault)
deriving DecidableEq, Repr

def checkFile (fs : FileSystem) (root : Path) (path : Path) : Except LoadError Report :=
  match fs.content? path with
  | none => .error (if fs.isFile path then .unread path else .missing path)
  | some content =>
    match Json.readValue content with
    | .ok matrix => .ok (check (isPresent fs root) matrix)
    | .error fault => .error (.undecodable path fault)

end ReleaseGate.Matrix
