import ReleaseGate.Files.Lookup
import ReleaseGate.Config.Basic
import ReleaseGate.Text.Blank
import ReleaseGate.Text.Quoted
import ReleaseGate.Text.Utf8

/-!
# Loading the configuration

A configuration file that is named must exist. Otherwise the file in the root of the code base is
used if there is one, and the defaults if there is none.
-/
namespace ReleaseGate.Config

open Files

def fileName : Path := "paritygate.toml"

inductive LoadError where
  | missing (path : Path)
  | unread (path : Path)
  | unreadable (path : Path)
  | unreadableSettings (path : Path)
  | invalid (path : Path) (defect : Defect)
deriving DecidableEq, Repr

def Defect.message : Defect → String
  | .noSuite => "suites.expected must name at least one suite"
  | .blankSuite => "suites.expected entries must be non-empty strings"
  | .duplicateSuite name => "duplicate suite in suites.expected: " ++ Text.quoted name

def LoadError.message : LoadError → String
  | .missing path => "config file not found: " ++ path
  | .unread path => unreadMessage path .denied
  | .unreadable path => "failed to read file: " ++ path ++ ": not a text"
  | .unreadableSettings path => "invalid toml at " ++ path ++ ": not a settings document"
  | .invalid path defect => "invalid config at " ++ path ++ ": " ++ defect.message

def loadFile (path : Path) (content : List UInt8) : Except LoadError Config :=
  match Text.Utf8.decode? content with
  | none => .error (.unreadable path)
  | some text =>
    match read? text with
    | none => .error (.unreadableSettings path)
    | some c =>
      match c.defect? with
      | some defect => .error (.invalid path defect)
      | none => .ok c

/-- The configuration for the code base at `root`. -/
def load (fs : FileSystem) (root : Path) (explicit : Option Path) : Except LoadError Config :=
  match explicit with
  | some path =>
    match fs.content? path with
    | some content => loadFile path content
    | none => .error (if fs.isFile path then .unread path else .missing path)
  | none =>
    match fs.content? (root.join fileName) with
    | some content => loadFile (root.join fileName) content
    | none =>
      if fs.isFile (root.join fileName) then .error (.unread (root.join fileName)) else .ok {}

end ReleaseGate.Config
