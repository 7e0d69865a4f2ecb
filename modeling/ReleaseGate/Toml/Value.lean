import ReleaseGate.Entries

/-!
# Settings documents

A settings document is a table of values. A table remembers how it came about, because that decides
what may be added to it later.
-/
namespace ReleaseGate.Toml

/-- Written in braces, opened by a header, implied by the header of a table below it, or implied
by a dotted name. -/
inductive Origin where
  | inline
  | header
  | implied
  | dotted
deriving DecidableEq, Repr

/-- Numbers, truth values and times are told from the rest, and not from each other. A list of
tables that headers open one by one is `growing`. -/
inductive Value where
  | text (s : String)
  | scalar
  | list (growing : Bool) (items : List Value)
  | table (origin : Origin) (entries : List (String × Value))
deriving Repr, Inhabited

abbrev Table := List (String × Value)

namespace Table

/-- Changes the table that a header names. Tables on the way are implied, and of a growing list the
last one is meant. -/
def descend (change : Table → Option Table) : List String → Table → Option Table
  | [], t => change t
  | name :: names, t =>
    match t.lookup name with
    | none => do return Entries.set name (.table .implied (← descend change names [])) t
    | some (.table .inline _) => none
    | some (.table origin inner) => do
      return Entries.set name (.table origin (← descend change names inner)) t
    | some (.list true items) =>
      match items.getLast? with
      | some (.table origin inner) => do
        let last := Value.table origin (← descend change names inner)
        return Entries.set name (.list true (items.dropLast ++ [last])) t
      | _ => none
    | _ => none

/-- Sets a value under a dotted name. A name is set once, and only tables that dotted names
implied are extended. -/
def assign (v : Value) : List String → Table → Option Table
  | [], _ => none
  | [name], t => if (t.lookup name).isSome then none else some (Entries.set name v t)
  | name :: names, t =>
    match t.lookup name with
    | none => do return Entries.set name (.table .dotted (← assign v names [])) t
    | some (.table .dotted inner) => do
      return Entries.set name (.table .dotted (← assign v names inner)) t
    | _ => none

/-- Opens a table by its header, which is done once. -/
def openTable (name : String) (t : Table) : Option Table :=
  match t.lookup name with
  | none => some (Entries.set name (.table .header []) t)
  | some (.table .implied inner) => some (Entries.set name (.table .header inner) t)
  | _ => none

/-- Adds a table to a growing list. -/
def openRow (name : String) (t : Table) : Option Table :=
  match t.lookup name with
  | none => some (Entries.set name (.list true [.table .header []]) t)
  | some (.list true items) => some (Entries.set name (.list true (items ++ [.table .header []])) t)
  | _ => none

end Table

/-- A line of a document that says something. -/
inductive Statement where
  | openTable (path : List String) (name : String)
  | openRow (path : List String) (name : String)
  | assign (path : List String) (v : Value)
deriving Repr

/-- What was said so far, and the table that values are assigned in. -/
structure Progress where
  current : List String := []
  root : Table := []

def Progress.step (p : Progress) : Statement → Option Progress
  | .openTable path name => do
    return ⟨path ++ [name], ← p.root.descend (Table.openTable name) path⟩
  | .openRow path name => do
    return ⟨path ++ [name], ← p.root.descend (Table.openRow name) path⟩
  | .assign path v => do
    return { p with root := ← p.root.descend (Table.assign v path) p.current }

/-- The table that statements describe; `none` if they contradict each other. -/
def Table.ofStatements (statements : List Statement) : Option Table :=
  (statements.foldlM Progress.step {}).map (·.root)

/-- A table written in braces. -/
def Table.ofPairs (pairs : List (List String × Value)) : Option Table :=
  pairs.foldlM (fun t pair => t.assign pair.2 pair.1) []

end ReleaseGate.Toml
