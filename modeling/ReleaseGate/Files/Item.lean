import ReleaseGate.Entries

/-!
# Items

A folder holds named items: files, folders and symbolic links. A place is the way to an item by the
names that lead there from the outermost folder; no link is followed on it.
-/
namespace ReleaseGate.Files

inductive Item where
  | file (content : List UInt8)
  | folder (entries : List (String × Item))
  | link (target : String)
deriving Inhabited

abbrev Place := List String

namespace Item

def entries : Item → List (String × Item)
  | .folder entries => entries
  | _ => []

def isFolder : Item → Bool
  | .folder _ => true
  | _ => false

def isFile : Item → Bool
  | .file _ => true
  | _ => false

def at? (item : Item) : Place → Option Item
  | [] => some item
  | name :: place =>
    match item.entries.lookup name with
    | some child => child.at? place
    | none => none

/-- Puts `new` at a place. What is in the way becomes a folder. -/
def put (new : Item) : Place → Item → Item
  | [], _ => new
  | name :: place, item =>
    let child := (item.entries.lookup name).getD (.folder [])
    .folder (Entries.set name (put new place child) item.entries)

/-- Takes away what is at a place. -/
def remove : Place → Item → Item
  | [], item => item
  | [name], item => .folder (item.entries.filter (·.1 != name))
  | name :: place, item =>
    match item.entries.lookup name with
    | some child => .folder (Entries.set name (remove place child) item.entries)
    | none => item

mutual

/-- An item and all that lies below it, each with its place. Links are not followed. -/
def walk : Item → List (Place × Item)
  | .folder entries => ([], .folder entries) :: walkEntries entries
  | .file content => [([], .file content)]
  | .link target => [([], .link target)]

def walkEntries : List (String × Item) → List (Place × Item)
  | [] => []
  | (name, item) :: entries =>
    (walk item).map (fun e => (name :: e.1, e.2)) ++ walkEntries entries

end

theorem at?_nil (item : Item) : item.at? [] = some item := by
  simp [at?]

theorem at?_put_self (new : Item) (place : Place) (item : Item) :
    (put new place item).at? place = some new := by
  induction place generalizing item with
  | nil => simp [put, at?]
  | cons name place ih => simp [put, at?, entries, Entries.lookup_set, ih]

end Item

end ReleaseGate.Files
