import ReleaseGate.Files.Lookup
import ReleaseGate.Source.LineCount
import ReleaseGate.Text.Utf8

/-!
# Line counts of source trees

The regular files under a folder that have a given extension, at any depth, count together. A link
under the folder is not followed; the folder itself may be reached through one. Folders are listed
and files are read by their paths, and there is no count if one of them cannot be opened.
-/
namespace ReleaseGate.Source

open Files

/-- What follows the last dot of a name, unless that dot is its first character. -/
def extension? (name : String) : Option String :=
  let reversed := name.toList.reverse
  let tail := reversed.takeWhile (· != '.')
  if reversed.length ≤ tail.length + 1 then none else some (String.ofList tail.reverse)

def LineCount.total (counts : List LineCount) : LineCount :=
  counts.foldr (· + ·) {}

def sourceFile? (extension : String) : Place × Item → Option (Place × List UInt8)
  | (place, .file content) =>
    if place.getLast?.bind extension? = some extension then some (place, content) else none
  | _ => none

/-- The files below a folder that have the extension. -/
def sourceFiles (extension : String) (entries : List (String × Item)) :
    List (Place × List UInt8) :=
  (Item.walkEntries entries).filterMap (sourceFile? extension)

def LineCount.ofFolder (extension : String) (entries : List (String × Item)) : LineCount :=
  .total ((sourceFiles extension entries).map fun f => .ofText (Text.Utf8.decodeLossy f.2))

/-- The first of two places, name by name. -/
def firstPlace : Place → Place → Place
  | [], _ => []
  | _ :: _, [] => []
  | a :: as, b :: bs =>
    if a < b then a :: as else if b < a then b :: bs else a :: firstPlace as bs

/-- The first folder, in the order of the entries, that cannot be listed. -/
def unlistedFolder? (fs : FileSystem) (root : Path) (entries : List (String × Item)) :
    Option (Place × Refusal) :=
  (Item.folder entries).walk.findSome? fun e =>
    if e.2.isFolder then (fs.refusal? root e.1).map (e.1, ·) else none

/-- The first source file, in the order of the names, that cannot be read. -/
def unreadFile? (fs : FileSystem) (root : Path) (extension : String)
    (entries : List (String × Item)) : Option (Place × Refusal) :=
  match ((sourceFiles extension entries).map (·.1)).filter fun place =>
      (fs.refusal? root place).isSome with
  | [] => none
  | place :: places =>
    let first := places.foldl firstPlace place
    (fs.refusal? root first).map (first, ·)

theorem LineCount.total_cons (c : LineCount) (counts : List LineCount) :
    LineCount.total (c :: counts) = c + LineCount.total counts := rfl

end ReleaseGate.Source
