import ReleaseGate.Evidence.Assemble
import ReleaseGate.Files.Write
import ReleaseGate.Config.Load
import ReleaseGate.Suite.Log
import ReleaseGate.Taxonomy.Build

/-!
# Generating evidence

The taxonomy is built and held to its contract before the verdict is computed, so there is no
evidence of a code base without a valid taxonomy.
-/
namespace ReleaseGate.Evidence

open Files

/-- `none` if the log is not a file, or cannot be read. What is no text in it is replaced. -/
def readLog? (fs : FileSystem) (path : Path) : Option (List Char) :=
  (fs.content? path).map Text.Utf8.decodeLossy

def missingLogMessage (path : Path) : String :=
  "log file not found: " ++ path

/-- Why there is no log. -/
def lostLogMessage (fs : FileSystem) (path : Path) : String :=
  if fs.isFile path then unreadMessage path .denied else missingLogMessage path

def generate (fs : FileSystem) (root : Path) (config : Config) (log : List Char)
    (now : Time.Instant) : Except Taxonomy.BuildError Evidence := do
  let suites := Suite.readLog config.expected log
  let taxonomy ← Taxonomy.build fs root config.sources
  return assemble suites config.expected taxonomy now

/-- Stores evidence in a file, whose folders are made if they are missing. If that fails the path at
which it failed is returned, with the folders that were made all the same. -/
def store (fs : FileSystem) (path : Path) (e : Evidence) : FileSystem × Option Path :=
  let parent := (path.parent?).getD ""
  match fs.makeAllFolders parent with
  | (made, false) => (made, some parent)
  | (made, true) =>
    match made.write? path (Text.Utf8.encode e.text.toList) with
    | some written => (written, none)
    | none => (made, some path)

def unwrittenMessage (path : Path) : String :=
  "failed to write file: " ++ path ++ ": no such place"

end ReleaseGate.Evidence
