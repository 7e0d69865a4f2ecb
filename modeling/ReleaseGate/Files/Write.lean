import ReleaseGate.Files.Lookup

/-!
# Changing files

Writing replaces the content of a file or makes a new one in a folder that exists; through a link it
reaches the link's target. Folders are made one by one from the outermost missing one. A file that
cannot be opened is not written either; what is new can be opened.
-/
namespace ReleaseGate.Files

namespace Path

/-- Drops the parts at the end that stand for the place before them. -/
def trimEnd (absolute : Bool) (reversed : List (List Char)) : List (List Char) :=
  match reversed with
  | [] => []
  | part :: rest =>
    if part = [] ∨ (part = ['.'] ∧ (absolute ∨ !rest.isEmpty)) then trimEnd absolute rest
    else part :: rest

def joinParts : List (List Char) → List Char
  | [] => []
  | [part] => part
  | part :: parts => part ++ '/' :: joinParts parts

/-- The name of the folder that holds what a path names; the empty name is that of the working
folder. -/
def parent? (p : Path) : Option Path :=
  let absolute := isAbsolute p
  let parts := if absolute then (splitSlashes p.toList).drop 1 else splitSlashes p.toList
  match trimEnd absolute parts.reverse with
  | [] => none
  | _ :: rest =>
    let body := joinParts (trimEnd absolute rest).reverse
    some (String.ofList (if absolute then '/' :: body else body))

end Path

namespace FileSystem

def put (fs : FileSystem) (place : Place) (item : Item) : FileSystem :=
  { fs with
    root := Item.put item place fs.root
    barred := fs.barred.filter (· != place) }

/-- `none` if the path names a folder or a file that cannot be opened, or if the folder to write in
is not there. -/
def write? (fs : FileSystem) (p : Path) (content : List UInt8) : Option FileSystem :=
  match fs.reach true p with
  | .found place =>
    match fs.root.at? place with
    | some (.file _) =>
      if fs.barred.contains place then none else some (fs.put place (.file content))
    | _ => none
  | .vacant folder name => some (fs.put (folder ++ [name]) (.file content))
  | _ => none

/-- Makes one folder; `missing` if the folder to make it in is not there. -/
def makeFolder (fs : FileSystem) (p : Path) : FileSystem × Reach :=
  let body := (p.toList.reverse.dropWhile (· == '/')).reverse
  let reached := fs.reach false (if body.isEmpty then p else String.ofList body)
  match reached with
  | .vacant folder name => (fs.put (folder ++ [name]) (.folder []), reached)
  | _ => (fs, reached)

/-- Makes a folder with all that are missing above it. What was made stays even if the rest fails.
-/
def makeFolders (fs : FileSystem) : Nat → Path → FileSystem × Bool
  | 0, _ => (fs, false)
  | steps + 1, p =>
    if p.isEmpty then (fs, true)
    else
      match fs.makeFolder p with
      | (made, .vacant _ _) => (made, true)
      | (_, .missing) =>
        match p.parent? with
        | none => (fs, false)
        | some parent =>
          match fs.makeFolders steps parent with
          | (above, false) => (above, false)
          | (above, true) =>
            match above.makeFolder p with
            | (made, .vacant _ _) => (made, true)
            | _ => (above, above.isFolder p)
      | _ => (fs, fs.isFolder p)

/-- Every parent has a shorter name. -/
def makeAllFolders (fs : FileSystem) (p : Path) : FileSystem × Bool :=
  fs.makeFolders (p.toList.length + 1) p

/-- Makes a link, or replaces what has its name; `none` if the folder to make it in is not there. -/
def makeLink? (fs : FileSystem) (p : Path) (target : String) : Option FileSystem :=
  match fs.reach false p with
  | .found place => some (fs.put place (.link target))
  | .vacant folder name => some (fs.put (folder ++ [name]) (.link target))
  | _ => none

/-- Takes away a file, a link, or a folder with all that it holds. -/
def remove? (fs : FileSystem) (p : Path) : Option FileSystem :=
  match fs.reach false p with
  | .found place =>
    some { fs with
      root := Item.remove place fs.root
      barred := fs.barred.filter fun barred => !place.isPrefixOf barred }
  | _ => none

end FileSystem

end ReleaseGate.Files
