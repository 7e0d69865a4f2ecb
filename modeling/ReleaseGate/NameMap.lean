import ReleaseGate.Entries

/-!
# Maps from names

A finite map whose entries are kept in the order of their names, by code points. The order is part
of the type, so two maps with the same content are equal.
-/
namespace ReleaseGate

structure NameMap (α : Type) where
  entries : List (String × α)
  ascending : entries.Pairwise fun a b => a.1 < b.1
deriving DecidableEq, Repr

/-- A set of names. -/
abbrev NameSet := NameMap Unit

namespace NameMap

def empty : NameMap α := ⟨[], .nil⟩

instance : Inhabited (NameMap α) := ⟨empty⟩

def insertEntry (name : String) (a : α) : List (String × α) → List (String × α)
  | [] => [(name, a)]
  | e :: rest =>
    if name < e.1 then (name, a) :: e :: rest
    else if name = e.1 then (name, a) :: rest
    else e :: insertEntry name a rest

theorem fst_of_mem_insertEntry {name : String} {a : α} {entries : List (String × α)}
    {e : String × α} (h : e ∈ insertEntry name a entries) : e.1 = name ∨ e ∈ entries := by
  induction entries with
  | nil => simp_all [insertEntry]
  | cons x rest ih =>
    unfold insertEntry at h
    split at h
    · rcases List.mem_cons.1 h with rfl | h
      · exact .inl rfl
      · exact .inr h
    · split at h
      · rcases List.mem_cons.1 h with rfl | h
        · exact .inl rfl
        · exact .inr (List.mem_cons_of_mem _ h)
      · rcases List.mem_cons.1 h with rfl | h
        · exact .inr List.mem_cons_self
        · rcases ih h with h | h
          · exact .inl h
          · exact .inr (List.mem_cons_of_mem _ h)

theorem insertEntry_ascending (name : String) (a : α) {entries : List (String × α)}
    (h : entries.Pairwise fun a b => a.1 < b.1) :
    (insertEntry name a entries).Pairwise fun a b => a.1 < b.1 := by
  induction entries with
  | nil => simp [insertEntry]
  | cons x rest ih =>
    have hx := List.pairwise_cons.1 h
    unfold insertEntry
    split
    case isTrue hlt =>
      refine List.pairwise_cons.2 ⟨fun e he => ?_, h⟩
      rcases List.mem_cons.1 he with rfl | he
      · exact hlt
      · exact String.lt_trans hlt (hx.1 e he)
    case isFalse hlt =>
      split
      case isTrue heq => exact List.pairwise_cons.2 ⟨fun e he => heq ▸ hx.1 e he, hx.2⟩
      case isFalse heq =>
        refine List.pairwise_cons.2 ⟨fun e he => ?_, ih hx.2⟩
        rcases fst_of_mem_insertEntry he with h | h
        · rw [h]
          have hle : x.1 ≤ name := String.not_lt.1 hlt
          exact Decidable.byContradiction fun hn =>
            heq (String.le_antisymm (String.not_lt.1 hn) hle)
        · exact hx.1 e h

/-- Replaces what the name stood for, if anything. -/
def insert (m : NameMap α) (name : String) (a : α) : NameMap α :=
  ⟨insertEntry name a m.entries, insertEntry_ascending name a m.ascending⟩

def get? (m : NameMap α) (name : String) : Option α :=
  m.entries.lookup name

def contains (m : NameMap α) (name : String) : Bool :=
  (m.get? name).isSome

def names (m : NameMap α) : List String :=
  m.entries.map (·.1)

def values (m : NameMap α) : List α :=
  m.entries.map (·.2)

def size (m : NameMap α) : Nat :=
  m.entries.length

/-- Of two entries with one name the later counts. -/
def ofList (entries : List (String × α)) : NameMap α :=
  entries.foldl (fun m e => m.insert e.1 e.2) empty

theorem get?_empty (name : String) : (empty : NameMap α).get? name = none := rfl

theorem lookup_insertEntry (name other : String) (a : α) (entries : List (String × α)) :
    (insertEntry name a entries).lookup other =
      if other = name then some a else entries.lookup other := by
  induction entries with
  | nil => simp [insertEntry, Entries.lookup_cons]
  | cons x rest ih =>
    unfold insertEntry
    split
    case isTrue => rw [Entries.lookup_cons]
    case isFalse =>
      split
      case isTrue heq =>
        rw [Entries.lookup_cons, Entries.lookup_cons other x, ← heq]
        split <;> rfl
      case isFalse heq =>
        rw [Entries.lookup_cons, Entries.lookup_cons other x, ih]
        by_cases h : other = name
        · rw [if_neg (h ▸ heq), if_pos h, if_pos h]
        · rw [if_neg h, if_neg h]

theorem get?_insert (m : NameMap α) (name other : String) (a : α) :
    (m.insert name a).get? other = if other = name then some a else m.get? other :=
  lookup_insertEntry name other a m.entries

end NameMap

namespace NameSet

def ofNames (names : List String) : NameSet :=
  NameMap.ofList (names.map (·, ()))

end NameSet

end ReleaseGate
