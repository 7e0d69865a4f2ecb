import ReleaseGate.NameMap

/-!
# Entries and look-ups

The entries of a map are exactly what can be looked up in it.
-/
namespace ReleaseGate.NameMap

theorem mem_iff_lookup_eq_some {entries : List (String × α)}
    (h : entries.Pairwise fun a b => a.1 < b.1) {name : String} {a : α} :
    (name, a) ∈ entries ↔ entries.lookup name = some a := by
  induction entries with
  | nil => simp
  | cons e rest ih =>
    obtain ⟨hlt, hrest⟩ := List.pairwise_cons.1 h
    rw [Entries.lookup_cons, List.mem_cons]
    by_cases hname : name = e.1
    · have hnot : (name, a) ∉ rest := fun hmem =>
        String.lt_irrefl _ (hname ▸ hlt _ hmem)
      rw [if_pos hname, or_iff_left hnot, Option.some.injEq, hname]
      constructor
      · intro he
        rw [← he]
      · rintro rfl
        rfl
    · have hne : (name, a) ≠ e := fun he => hname (he ▸ rfl)
      rw [if_neg hname, or_iff_right hne, ih hrest]

theorem mem_entries_iff {m : NameMap α} {name : String} {a : α} :
    (name, a) ∈ m.entries ↔ m.get? name = some a :=
  mem_iff_lookup_eq_some m.ascending

theorem mem_values_iff {m : NameMap α} {a : α} :
    a ∈ m.values ↔ ∃ name, m.get? name = some a := by
  simp only [values, List.mem_map, Prod.exists, exists_eq_right, mem_entries_iff]

theorem contains_iff {m : NameMap α} {name : String} :
    m.contains name ↔ ∃ a, m.get? name = some a := by
  rw [contains, Option.isSome_iff_exists]

theorem mem_names_iff {m : NameMap α} {name : String} : name ∈ m.names ↔ m.contains name := by
  simp [names, contains_iff, ← mem_entries_iff]

theorem mem_names_iff_exists {m : NameMap α} {name : String} :
    name ∈ m.names ↔ ∃ a, m.get? name = some a := by
  rw [mem_names_iff, contains_iff]

theorem lookup_eq_none_iff {entries : List (String × α)} {name : String} :
    entries.lookup name = none ↔ name ∉ entries.map (·.1) := by
  induction entries with
  | nil => simp
  | cons e rest ih =>
    rw [Entries.lookup_cons, List.map_cons, List.mem_cons, not_or, ← ih]
    by_cases h : name = e.1
    · simp [h]
    · simp [h]

theorem mem_of_lookup {entries : List (String × α)} {name : String} {a : α}
    (h : entries.lookup name = some a) : (name, a) ∈ entries := by
  induction entries with
  | nil => simp at h
  | cons e rest ih =>
    rw [Entries.lookup_cons] at h
    split at h
    case isTrue he =>
      obtain rfl := Option.some.inj h
      exact he ▸ List.mem_cons_self
    case isFalse => exact List.mem_cons_of_mem e (ih h)

/-- Where no name comes twice, every entry can be looked up. -/
theorem lookup_of_mem {entries : List (String × α)} (h : (entries.map (·.1)).Nodup)
    {e : String × α} (he : e ∈ entries) : entries.lookup e.1 = some e.2 := by
  induction entries with
  | nil => simp at he
  | cons first rest ih =>
    rw [List.map_cons, List.nodup_cons] at h
    rw [Entries.lookup_cons]
    rcases List.mem_cons.1 he with rfl | he
    · rw [if_pos rfl]
    · have hne : e.1 ≠ first.1 := fun heq => h.1 (heq ▸ List.mem_map_of_mem he)
      rw [if_neg hne, ih h.2 he]

theorem get?_foldl_insert {entries : List (String × α)} (h : (entries.map (·.1)).Nodup)
    (m : NameMap α) (name : String) :
    (entries.foldl (fun m e => m.insert e.1 e.2) m).get? name =
      (entries.lookup name).or (m.get? name) := by
  induction entries generalizing m with
  | nil => simp
  | cons e rest ih =>
    rw [List.map_cons, List.nodup_cons, ← lookup_eq_none_iff] at h
    rw [List.foldl_cons, ih h.2, get?_insert, Entries.lookup_cons]
    by_cases he : name = e.1
    · rw [if_pos he, if_pos he, he, h.1]
      rfl
    · rw [if_neg he, if_neg he]

/-- Of the entries with one name the last counts. -/
theorem get?_foldl_insert_eq_last (entries : List (String × α)) (m : NameMap α) (name : String) :
    (entries.foldl (fun m e => m.insert e.1 e.2) m).get? name =
      ((entries.reverse.find? (·.1 == name)).map (·.2)).or (m.get? name) := by
  induction entries generalizing m with
  | nil => rfl
  | cons e rest ih =>
    rw [List.foldl_cons, ih, get?_insert, List.reverse_cons, List.find?_append]
    by_cases he : name = e.1
    · cases rest.reverse.find? (·.1 == name) with
      | none => simp [he]
      | some last => simp
    · have hne : (e.1 == name) = false := by simpa using Ne.symm he
      simp [he, hne]

/-- Where no name comes twice, all entries can be looked up. -/
theorem get?_ofList {entries : List (String × α)} (h : (entries.map (·.1)).Nodup) (name : String) :
    (ofList entries).get? name = entries.lookup name := by
  rw [ofList, get?_foldl_insert h, get?_empty, Option.or_none]

theorem lookup_map (f : String → α → β) (entries : List (String × α)) (name : String) :
    (entries.map fun e => (e.1, f e.1 e.2)).lookup name = (entries.lookup name).map (f name) := by
  induction entries with
  | nil => rfl
  | cons e rest ih =>
    rw [List.map_cons, Entries.lookup_cons, Entries.lookup_cons, ih]
    split
    case isTrue he =>
      rw [he]
      rfl
    case isFalse => rfl

theorem lookup_map_entries (m : NameMap α) (f : α → β) (name : String) :
    (m.entries.map fun e => (e.1, f e.2)).lookup name = (m.get? name).map f :=
  lookup_map (fun _ => f) m.entries name

theorem nodup_names (m : NameMap α) : (m.entries.map (·.1)).Nodup := by
  have hlt : (m.entries.map (·.1)).Pairwise (· < ·) := List.pairwise_map.2 m.ascending
  refine hlt.imp ?_
  rintro a b hab rfl
  exact String.lt_irrefl a hab

end ReleaseGate.NameMap
