import ReleaseGate.Files.Item
import ReleaseGate.Files.Path

/-!
# Looking up paths

A path is followed part by part from the working folder or, if it is absolute, from the outermost
one. Links on the way are replaced by their targets, at most forty of them. A path that no file can
have, for its length or for a null character, is followed nowhere. What a path leads to is there,
but it may be that it cannot be opened.
-/
namespace ReleaseGate.Files

/-- Items, of which some may be there and not be opened: a file at a barred place is not read, and
the names in a folder there are not listed. -/
structure FileSystem where
  root : Item
  workingPlace : Place
  barred : List Place := []

/-- Where a path leads: to an item, to a name that is free in its folder, to nothing because a
folder on the way is missing, or nowhere at all because something on the way is no folder. -/
inductive Reach where
  | found (place : Place)
  | vacant (folder : Place) (name : String)
  | missing
  | blocked
deriving DecidableEq, Repr

/-- Why something that is there cannot be opened. -/
inductive Refusal where
  | overlong
  | denied
deriving DecidableEq, Repr

def Refusal.message : Refusal → String
  | .overlong => "File name too long (os error 36)"
  | .denied => "Permission denied (os error 13)"

def unreadMessage (path : Path) (why : Refusal) : String :=
  "failed to read file: " ++ path ++ ": " ++ why.message

/-- The path of a place below the item that `root` leads to. -/
def Path.below (root : Path) (place : Place) : Path :=
  place.foldl join root

namespace FileSystem

def linkLimit : Nat := 40

/-- In bytes, for one name. -/
def nameLimit : Nat := 255

/-- In bytes, for a whole path. -/
def pathLimit : Nat := 4095

/-- Whether a file may have the path, as far as that can be told without looking anything up. -/
def isPath (p : Path) : Bool :=
  p.utf8ByteSize ≤ pathLimit && !p.toList.contains '\x00'

def startOf (p : Path) (place : Place) : Place :=
  if p.isAbsolute then [] else place

/-- Follows parts from a place. `viaLink` follows what a link stands for; a link in the last part is
kept unless `followLast` is set. -/
def steps (root : Item) (followLast : Bool) (viaLink : Place → List String → Reach) :
    List String → Place → Reach
  | [], place => .found place
  | part :: parts, place =>
    match root.at? place with
    | some (.folder entries) =>
      if part = "" ∨ part = "." then steps root followLast viaLink parts place
      else if part = ".." then steps root followLast viaLink parts place.dropLast
      else
        match entries.lookup part with
        | none =>
          if nameLimit < part.utf8ByteSize then .blocked
          else if parts.isEmpty then .vacant place part
          else .missing
        | some (.link target) =>
          if parts.isEmpty && !followLast then .found (place ++ [part])
          else viaLink (startOf target place) (Path.parts target ++ parts)
        | some _ => steps root followLast viaLink parts (place ++ [part])
    | _ => .blocked

def follow (root : Item) (followLast : Bool) : Nat → Place → List String → Reach
  | 0, place, parts => steps root followLast (fun _ _ => .blocked) parts place
  | links + 1, place, parts => steps root followLast (follow root followLast links) parts place

def reach (fs : FileSystem) (followLast : Bool) (p : Path) : Reach :=
  if p.isEmpty then .missing
  else if !isPath p then .blocked
  else follow fs.root followLast linkLimit (startOf p fs.workingPlace) p.parts

/-- Whether a path leads to an item, be it a link that leads nowhere. -/
def isTaken (fs : FileSystem) (p : Path) : Bool :=
  match fs.reach false p with
  | .found _ => true
  | _ => false

/-- The item that a path leads to through all links. -/
def item? (fs : FileSystem) (p : Path) : Option Item :=
  match fs.reach true p with
  | .found place => fs.root.at? place
  | _ => none

def itemExists (fs : FileSystem) (p : Path) : Bool :=
  (fs.item? p).isSome

def isFile (fs : FileSystem) (p : Path) : Bool :=
  (fs.item? p).any Item.isFile

def isFolder (fs : FileSystem) (p : Path) : Bool :=
  (fs.item? p).any Item.isFolder

/-- The item that a path leads to, if it can be opened. -/
def opened? (fs : FileSystem) (p : Path) : Option Item :=
  match fs.reach true p with
  | .found place => if fs.barred.contains place then none else fs.root.at? place
  | _ => none

/-- What is read from a file; `none` too if it is there and cannot be read. -/
def content? (fs : FileSystem) (p : Path) : Option (List UInt8) :=
  match fs.opened? p with
  | some (.file content) => some content
  | _ => none

def folder? (fs : FileSystem) (p : Path) : Option (List (String × Item)) :=
  match fs.opened? p with
  | some (.folder entries) => some entries
  | _ => none

/-- Why what lies at a place below the folder at `root` cannot be opened by its path. -/
def refusal? (fs : FileSystem) (root : Path) (place : Place) : Option Refusal :=
  if !isPath (root.below place) then some .overlong
  else
    match fs.reach true root with
    | .found top => if fs.barred.contains (top ++ place) then some .denied else none
    | _ => none

end FileSystem

end ReleaseGate.Files
