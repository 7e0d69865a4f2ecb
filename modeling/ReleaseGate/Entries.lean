/-!
# Named entries

Entries in the order in which their names were first set, each name once.
-/
namespace ReleaseGate.Entries

/-- Replaces the entry of that name, or adds one at the end. -/
def set (name : String) (a : α) : List (String × α) → List (String × α)
  | [] => [(name, a)]
  | e :: rest => if e.1 = name then (name, a) :: rest else e :: set name a rest

theorem lookup_cons (name : String) (e : String × α) (rest : List (String × α)) :
    (e :: rest).lookup name = if name = e.1 then some e.2 else rest.lookup name := by
  obtain ⟨key, a⟩ := e
  by_cases h : name = key
  · simp [h]
  · have hb : (name == key) = false := by simpa using h
    simp [List.lookup_cons, h, hb]

theorem lookup_set (name other : String) (a : α) (entries : List (String × α)) :
    (set name a entries).lookup other = if other = name then some a else entries.lookup other := by
  induction entries with
  | nil => simp [set, lookup_cons]
  | cons e rest ih =>
    by_cases he : e.1 = name
    · by_cases h : other = name <;> simp [set, lookup_cons, he, h]
    · rw [set, if_neg he, lookup_cons, lookup_cons, ih]
      by_cases h : other = name
      · subst h
        simp [Ne.symm he]
      · simp [h]

end ReleaseGate.Entries
