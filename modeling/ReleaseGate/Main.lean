import Std.Time.DateTime.Timestamp
import ReleaseGate.Command.Inputs
import ReleaseGate.Command.Run
import ReleaseGate.Files.Change

/-!
# The command line

A request is run on a picture of the files around it. The picture has the names of all files in
the working folder and in the root of the code base, and the content of those that the request may
ask for. What the run has changed in the picture is stored afterwards.
-/
namespace ReleaseGate.Command

open Files

/-- The item of an entry at a place, if it is a file, a folder or a link, and the places at or below
it that cannot be opened. A link is told by where it leads to; one that leads nowhere has a target
that no file can have. -/
partial def readItem? (withContent : Bool) (place : Place) (entry : IO.FS.DirEntry) :
    IO (Option (Item × List Place)) := do
  match (← entry.path.symlinkMetadata).type with
  | .file =>
    if withContent then
      try return some (.file (← IO.FS.readBinFile entry.path).toList, [])
      catch _ => return some (.file [], [place])
    else return some (.file [], [])
  | .dir =>
    match ← (try some <$> entry.path.readDir catch _ => pure none) with
    | none => return some (.folder [], [place])
    | some children =>
      let items ← children.toList.filterMapM fun child => do
        return (← readItem? withContent (place ++ [child.fileName]) child).map (child.fileName, ·)
      return some (.folder (items.map fun i => (i.1, i.2.1)), items.flatMap (·.2.2))
  | .symlink =>
    let target ← try pure (← IO.FS.realPath entry.path).toString catch _ => pure "/\x00"
    return some (.link target, [])
  | .other => return none

/-- Adds what a path leads to; a path that leads nowhere adds nothing. -/
def photograph (withContent : Bool) (fs : FileSystem) (path : Path) : IO FileSystem := do
  try
    let found : Path := (← IO.FS.realPath path).toString
    match ← readItem? withContent found.parts ⟨".", found⟩ with
    | some (item, barred) =>
      let fs := fs.put found.parts item
      return { fs with barred := barred ++ fs.barred }
    | none => return fs
  catch _ => return fs

def picture (request : Request) : IO FileSystem := do
  let working : Path := (← IO.FS.realPath ".").toString
  let empty : FileSystem := { root := .folder [], workingPlace := working.parts }
  let names ← ("." :: request.surroundings).foldlM (photograph false) empty
  let named ← request.namedInputs.foldlM (photograph true) names
  (request.configuredInputs named).foldlM (photograph true) named

def store (change : Place × Item) : IO Unit :=
  let path := "/" ++ "/".intercalate change.1
  match change.2 with
  | .file content => IO.FS.writeBinFile path content.toByteArray
  | .folder _ => IO.FS.createDirAll path
  | .link _ => pure ()

def currentInstant : IO Time.Instant := do
  let nanos := (← Std.Time.Timestamp.now).toNanosecondsSinceUnixEpoch.val
  return ⟨nanos / 1000000000, (nanos % 1000000000).toNat⟩

def usage : String :=
  "error: usage: paritygate (generate | validate-taxonomy | count | traceability-check) [options]"

/-- The exit code of an answer whose changes could be stored. -/
def deliver (before after : FileSystem) (answer : Answer) : IO UInt32 := do
  let final ←
    try
      (Item.changes [] (some before.root) after.root).forM store
      pure answer
    catch e => pure (refused 1 (toString e))
  (← IO.getStdout).putStr final.output
  (← IO.getStderr).putStr final.errors
  return final.exitCode.toUInt32

end ReleaseGate.Command

def main (args : List String) : IO UInt32 := do
  match ReleaseGate.Command.Request.ofArguments? args with
  | none =>
    IO.eprintln ReleaseGate.Command.usage
    return 2
  | some request =>
    let before ← ReleaseGate.Command.picture request
    let now ← ReleaseGate.Command.currentInstant
    let (after, answer) := ReleaseGate.Command.run before now request
    ReleaseGate.Command.deliver before after answer
