import ReleaseGate.Files.Write

/-!
# Trees that grow

What is put in a free name of a folder, or in the place of a file, leaves everything else as it is:
the files with their content, the links with their targets, and the folders with what they held.
-/
namespace ReleaseGate.Files

namespace Item

theorem at?_cons (item : Item) (name : String) (place : Place) :
    item.at? (name :: place) = (item.entries.lookup name).bind (·.at? place) := by
  rw [at?]
  cases item.entries.lookup name with
  | none => rfl
  | some child => rfl

theorem at?_append (item : Item) (place more : Place) :
    item.at? (place ++ more) = (item.at? place).bind (·.at? more) := by
  induction place generalizing item with
  | nil => simp [at?_nil]
  | cons name place ih =>
    rw [List.cons_append, at?_cons, at?_cons]
    cases item.entries.lookup name with
    | none => rfl
    | some child => exact ih child

theorem at?_child {item : Item} {place : Place} {entries : List (String × Item)}
    (h : item.at? place = some (.folder entries)) (name : String) :
    item.at? (place ++ [name]) = entries.lookup name := by
  rw [at?_append, h, Option.bind_some, at?_cons, Item.entries]
  cases entries.lookup name with
  | none => rfl
  | some child => rfl

/-- What an item is apart from what a folder holds. -/
def outline : Item → Item
  | .folder _ => .folder []
  | item => item

theorem outline_folder (entries : List (String × Item)) : (folder entries).outline = .folder [] :=
  rfl

theorem outline_eq_folder_iff {item : Item} :
    item.outline = .folder [] ↔ ∃ entries, item = .folder entries := by
  cases item <;> simp [outline]

theorem outline_eq_file_iff {item : Item} {content : List UInt8} :
    item.outline = .file content ↔ item = .file content := by
  cases item <;> simp [outline]

theorem outline_eq_link_iff {item : Item} {target : String} :
    item.outline = .link target ↔ item = .link target := by
  cases item <;> simp [outline]

theorem at?_put_append (new : Item) (place more : Place) (item : Item) :
    (put new place item).at? (place ++ more) = new.at? more := by
  rw [at?_append, at?_put_self, Option.bind_some]

/-- What does not lie at or below the place keeps its outline. -/
theorem outline_at?_put (new : Item) {item : Item} {folder other : Place} {name : String}
    {entries : List (String × Item)} (hfolder : item.at? folder = some (.folder entries))
    (hother : ¬ folder ++ [name] <+: other) :
    ((put new (folder ++ [name]) item).at? other).map outline = (item.at? other).map outline := by
  induction folder generalizing item other with
  | nil =>
    rw [at?_nil, Option.some.injEq] at hfolder
    subst hfolder
    cases other with
    | nil => simp [put, at?_nil, outline_folder]
    | cons first rest =>
      have hne : first ≠ name := by
        rintro rfl
        exact hother (by simp)
      simp [put, at?_cons, Item.entries, Entries.lookup_set, hne]
  | cons first folder ih =>
    rw [at?_cons, Option.bind_eq_some_iff] at hfolder
    obtain ⟨child, hchild, hfolder⟩ := hfolder
    cases other with
    | nil =>
      cases item with
      | folder held => simp [put, at?_nil, outline_folder]
      | file content => simp [Item.entries] at hchild
      | link target => simp [Item.entries] at hchild
    | cons second rest =>
      rw [List.cons_append, put, at?_cons, at?_cons, Item.entries, Entries.lookup_set]
      split
      case isTrue heq =>
        subst heq
        have hrest : ¬ folder ++ [name] <+: rest := fun h => hother (by simpa using h)
        rw [hchild, Option.bind_some, Option.bind_some, Option.getD_some]
        exact ih hfolder hrest
      case isFalse => rfl

/-- How a tree may become another one: at the places in `written` a file is new or has a new
content; whatever else there was is still there, and whatever else is new is a folder. -/
structure Grows (written : Place → Prop) (old new : Item) : Prop where
  kept : ∀ place item, ¬ written place → old.at? place = some item →
    (new.at? place).map outline = some item.outline
  file : ∀ place, written place → (∃ content, new.at? place = some (.file content)) ∧
    ∀ item, old.at? place = some item → ∃ content, item = .file content
  added : ∀ place item, ¬ written place → old.at? place = none → new.at? place = some item →
    ∃ entries, item = .folder entries

def nowhere : Place → Prop := fun _ => False

theorem Grows.refl (item : Item) : Grows nowhere item item where
  kept place found _ h := by rw [h, Option.map_some]
  file place h := h.elim
  added place found _ hnone h := by simp [hnone] at h

theorem Grows.trans {written : Place → Prop} {a b c : Item} (hab : Grows nowhere a b)
    (hbc : Grows written b c) : Grows written a c where
  kept place item hw h := by
    have hb := hab.kept place item id h
    obtain ⟨middle, hmiddle, houtline⟩ := Option.map_eq_some_iff.1 hb
    rw [hbc.kept place middle hw hmiddle, houtline]
  file place hw := by
    obtain ⟨hfile, hall⟩ := hbc.file place hw
    refine ⟨hfile, fun item h => ?_⟩
    obtain ⟨middle, hmiddle, houtline⟩ := Option.map_eq_some_iff.1 (hab.kept place item id h)
    obtain ⟨content, rfl⟩ := hall middle hmiddle
    exact ⟨content, outline_eq_file_iff.1 houtline.symm⟩
  added place item hw hnone h := by
    cases hb : b.at? place with
    | none => exact hbc.added place item hw hb h
    | some middle =>
      obtain ⟨entries, rfl⟩ := hab.added place middle id hnone hb
      have hkept := hbc.kept place _ hw hb
      rw [h, Option.map_some, Option.some.injEq, outline_folder] at hkept
      exact outline_eq_folder_iff.1 hkept

theorem at?_eq_none_of_isPrefix {item : Item} {place other : Place} (h : item.at? place = none)
    (hstart : place <+: other) : item.at? other = none := by
  obtain ⟨more, rfl⟩ := hstart
  rw [at?_append, h, Option.bind_none]

theorem at?_folder_nil {place : Place} {item : Item} (h : (folder []).at? place = some item) :
    item = folder [] := by
  cases place with
  | nil => simpa [at?_nil] using h.symm
  | cons name place => simp [at?_cons, Item.entries] at h

theorem at?_file {content : List UInt8} {place : Place} {item : Item}
    (h : (file content).at? place = some item) : place = [] ∧ item = .file content := by
  cases place with
  | nil => exact ⟨rfl, by simpa [at?_nil] using h.symm⟩
  | cons name place => simp [at?_cons, Item.entries] at h

theorem grows_put_folder {root : Item} {place : Place} {name : String}
    {entries : List (String × Item)} (hfolder : root.at? place = some (.folder entries))
    (hfree : entries.lookup name = none) :
    Grows nowhere root (put (.folder []) (place ++ [name]) root) where
  kept other item _ h := by
    have hnone : root.at? (place ++ [name]) = none := by rw [at?_child hfolder, hfree]
    have hother : ¬ place ++ [name] <+: other := by
      intro hstart
      simp [at?_eq_none_of_isPrefix hnone hstart] at h
    rw [outline_at?_put _ hfolder hother, h, Option.map_some]
  file other h := h.elim
  added other item _ hnone h := by
    by_cases hstart : place ++ [name] <+: other
    · obtain ⟨more, rfl⟩ := hstart
      rw [at?_put_append] at h
      exact ⟨[], at?_folder_nil h⟩
    · have houtline := outline_at?_put (.folder []) hfolder hstart
      rw [hnone, h] at houtline
      simp at houtline

/-- A file is put in a free name of a folder, or takes the place of a file there. -/
theorem grows_put_file {root : Item} {place : Place} {name : String}
    {entries : List (String × Item)} (hfolder : root.at? place = some (.folder entries))
    (hfile : ∀ item, entries.lookup name = some item → ∃ content, item = .file content)
    (content : List UInt8) :
    Grows (· = place ++ [name]) root (put (.file content) (place ++ [name]) root) where
  kept other item hne h := by
    have hother : ¬ place ++ [name] <+: other := by
      rintro ⟨more, rfl⟩
      rw [at?_append, at?_child hfolder, Option.bind_eq_some_iff] at h
      obtain ⟨child, hchild, hmore⟩ := h
      obtain ⟨old, rfl⟩ := hfile child hchild
      exact hne (by rw [(at?_file hmore).1, List.append_nil])
    rw [outline_at?_put _ hfolder hother, h, Option.map_some]
  file other h := by
    subst h
    refine ⟨⟨content, at?_put_self _ _ _⟩, fun item h => ?_⟩
    rw [at?_child hfolder] at h
    exact hfile item h
  added other item hne hnone h := by
    by_cases hstart : place ++ [name] <+: other
    · obtain ⟨more, rfl⟩ := hstart
      rw [at?_put_append] at h
      exact absurd (by rw [(at?_file h).1, List.append_nil]) hne
    · have houtline := outline_at?_put (.file content) hfolder hstart
      rw [hnone, h] at houtline
      simp at houtline

theorem grows_overwrite {root : Item} {place : Place} {old : List UInt8}
    (h : root.at? place = some (.file old)) (content : List UInt8) :
    Grows (· = place) root (put (.file content) place root) := by
  rcases List.eq_nil_or_concat place with rfl | ⟨folder, name, rfl⟩
  · rw [at?_nil, Option.some.injEq] at h
    subst h
    refine ⟨fun other item hne h => absurd (at?_file h).1 hne, ?_,
      fun other item hne _ h => absurd (at?_file h).1 hne⟩
    rintro other rfl
    exact ⟨⟨content, rfl⟩, fun item h => ⟨old, (at?_file h).2⟩⟩
  · rw [List.concat_eq_append] at h ⊢
    rw [at?_append, Option.bind_eq_some_iff] at h
    obtain ⟨parent, hparent, hname⟩ := h
    rw [at?_cons, Option.bind_eq_some_iff] at hname
    obtain ⟨child, hchild, hfile⟩ := hname
    rw [at?_nil, Option.some.injEq] at hfile
    subst hfile
    cases parent with
    | folder entries =>
      refine grows_put_file hparent (fun item hitem => ⟨old, ?_⟩) content
      have hlookup : entries.lookup name = some (.file old) := hchild
      rw [hlookup, Option.some.injEq] at hitem
      exact hitem.symm
    | file content => simp [Item.entries] at hchild
    | link target => simp [Item.entries] at hchild

end Item

end ReleaseGate.Files
