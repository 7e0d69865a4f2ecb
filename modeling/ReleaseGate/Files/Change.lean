import ReleaseGate.Files.Item

/-!
# Changes

What a tree of items holds that another one does not: new files and folders, and files with another
content. A folder comes before what it holds, so the changes can be carried out one after the other.
-/
namespace ReleaseGate.Files

namespace Item

mutual

/-- What has to be put at a place, or below it, where `old` is now. -/
def changes (place : Place) (old : Option Item) : Item → List (Place × Item)
  | .file content =>
    match old with
    | some (.file previous) => if previous = content then [] else [(place, .file content)]
    | _ => [(place, .file content)]
  | .link target =>
    match old with
    | some (.link previous) => if previous = target then [] else [(place, .link target)]
    | _ => [(place, .link target)]
  | .folder children =>
    match old with
    | some (.folder previous) => changesIn place previous children
    | _ => (place, .folder []) :: changesIn place [] children

def changesIn (place : Place) (old : List (String × Item)) :
    List (String × Item) → List (Place × Item)
  | [] => []
  | (name, item) :: rest =>
    changes (place ++ [name]) (old.lookup name) item ++ changesIn place old rest

end

theorem changes_file (place : Place) (old : Option Item) (content : List UInt8) :
    (place, Item.file content) ∈ changes place old (.file content) ↔
      old ≠ some (.file content) := by
  rcases old with _ | (previous | _ | _) <;> simp [changes]

end Item

end ReleaseGate.Files
