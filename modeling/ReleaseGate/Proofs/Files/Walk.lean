import Mathlib.Data.List.Nodup
import ReleaseGate.Proofs.Files.Grows
import ReleaseGate.Proofs.NameMap

/-!
# Walks through trees

A walk comes to every item of a tree once, at the place by which it can be looked up.
-/
namespace ReleaseGate.Files.Item

/-- No folder of an item holds two items of one name. -/
def NamesDiffer (item : Item) : Prop :=
  ∀ place entries, item.at? place = some (.folder entries) → (entries.map (·.1)).Nodup

theorem namesDiffer_file (content : List UInt8) : (file content).NamesDiffer := by
  intro place entries h
  cases (at?_file h).2

theorem namesDiffer_link (target : String) : (link target).NamesDiffer := by
  intro place entries h
  cases place with
  | nil => cases h
  | cons name more => simp [at?_cons, Item.entries] at h

theorem namesDiffer_folder {entries : List (String × Item)} (hnames : (entries.map (·.1)).Nodup)
    (hchildren : ∀ e ∈ entries, e.2.NamesDiffer) : (folder entries).NamesDiffer := by
  intro place held h
  cases place with
  | nil =>
    rw [at?_nil, Option.some.injEq, folder.injEq] at h
    exact h ▸ hnames
  | cons name more =>
    rw [at?_cons, Option.bind_eq_some_iff] at h
    obtain ⟨child, hchild, hmore⟩ := h
    exact hchildren _ (NameMap.mem_of_lookup hchild) more held hmore

variable {item child found : Item} {entries : List (String × Item)} {name : String}

theorem NamesDiffer.nodup (h : (folder entries).NamesDiffer) : (entries.map (·.1)).Nodup :=
  h [] entries (at?_nil _)

theorem NamesDiffer.at? (h : item.NamesDiffer) {place : Place}
    (hchild : item.at? place = some child) : child.NamesDiffer := by
  intro more entries hfolder
  apply h (place ++ more) entries
  rw [at?_append, hchild, Option.bind_some, hfolder]

theorem NamesDiffer.of_mem (h : (folder entries).NamesDiffer) (hmem : (name, child) ∈ entries) :
    child.NamesDiffer := by
  have hchild : (folder entries).at? [name] = some child := by
    rw [at?_cons, Item.entries, NameMap.lookup_of_mem h.nodup hmem, Option.bind_some, at?_nil]
  exact h.at? hchild

theorem mem_walkEntries_iff {place : Place} :
    (place, found) ∈ walkEntries entries ↔ ∃ name child more,
      place = name :: more ∧ (name, child) ∈ entries ∧ (more, found) ∈ child.walk := by
  induction entries with
  | nil => simp [walkEntries]
  | cons e entries ih =>
    obtain ⟨first, item⟩ := e
    rw [walkEntries, List.mem_append, ih, List.mem_map]
    constructor
    · rintro (⟨⟨more, found⟩, hmem, he⟩ | ⟨name, child, more, rfl, hentry, hmem⟩)
      · rw [Prod.mk.injEq] at he
        obtain ⟨rfl, rfl⟩ := he
        exact ⟨first, item, more, rfl, List.mem_cons_self, hmem⟩
      · exact ⟨name, child, more, rfl, List.mem_cons_of_mem _ hentry, hmem⟩
    · rintro ⟨name, child, more, rfl, hentry, hmem⟩
      rcases List.mem_cons.1 hentry with he | hentry
      · rw [Prod.mk.injEq] at he
        obtain ⟨rfl, rfl⟩ := he
        exact .inl ⟨_, hmem, rfl⟩
      · exact .inr ⟨name, child, more, rfl, hentry, hmem⟩

theorem ne_nil_of_mem_walkEntries {place : Place} (h : (place, found) ∈ walkEntries entries) :
    place ≠ [] := by
  obtain ⟨name, child, more, rfl, -⟩ := mem_walkEntries_iff.1 h
  exact List.cons_ne_nil _ _

theorem mem_walk_nil_iff : ([], found) ∈ item.walk ↔ found = item := by
  cases item with
  | folder entries =>
    rw [walk, List.mem_cons, Prod.mk.injEq]
    have hbelow : ([], found) ∉ walkEntries entries := fun h => ne_nil_of_mem_walkEntries h rfl
    simp [hbelow]
  | file content => simp [walk]
  | link target => simp [walk]

theorem mem_walk_cons_iff {place : Place} : (name :: place, found) ∈ item.walk ↔
    ∃ child, (name, child) ∈ item.entries ∧ (place, found) ∈ child.walk := by
  cases item with
  | folder entries =>
    rw [walk, List.mem_cons, mem_walkEntries_iff]
    simp only [Prod.mk.injEq, reduceCtorEq, false_and, false_or, List.cons.injEq]
    constructor
    · rintro ⟨_, child, _, ⟨rfl, rfl⟩, hentry, hmem⟩
      exact ⟨child, hentry, hmem⟩
    · rintro ⟨child, hentry, hmem⟩
      exact ⟨name, child, place, ⟨rfl, rfl⟩, hentry, hmem⟩
  | file content => simp [walk, entries]
  | link target => simp [walk, entries]

/-- What a walk comes to is what can be looked up. -/
theorem NamesDiffer.mem_walk_iff (h : item.NamesDiffer) {place : Place} :
    (place, found) ∈ item.walk ↔ item.at? place = some found := by
  induction place generalizing item with
  | nil => rw [mem_walk_nil_iff, at?_nil, Option.some.injEq, eq_comm]
  | cons name place ih =>
    rw [mem_walk_cons_iff, at?_cons, Option.bind_eq_some_iff]
    refine exists_congr fun child => ?_
    cases item with
    | folder entries =>
      have hlookup : (name, child) ∈ entries ↔ entries.lookup name = some child :=
        ⟨NameMap.lookup_of_mem h.nodup, NameMap.mem_of_lookup⟩
      rw [Item.entries, ← hlookup]
      exact and_congr_right fun hmem => ih (h.of_mem hmem)
    | file content => simp [Item.entries]
    | link target => simp [Item.entries]

theorem NamesDiffer.mem_walkEntries_iff (h : (folder entries).NamesDiffer) {place : Place} :
    (place, found) ∈ walkEntries entries ↔
      place ≠ [] ∧ (folder entries).at? place = some found := by
  rw [← h.mem_walk_iff, walk, List.mem_cons, Prod.mk.injEq]
  constructor
  · intro hmem
    exact ⟨ne_nil_of_mem_walkEntries hmem, .inr hmem⟩
  · rintro ⟨hne, ⟨rfl, -⟩ | hmem⟩
    · exact absurd rfl hne
    · exact hmem

mutual

/-- No place comes twice in a walk. -/
theorem NamesDiffer.nodup_walk :
    ∀ (item : Item), item.NamesDiffer → (item.walk.map (·.1)).Nodup
  | .folder entries, h => by
    rw [walk, List.map_cons, List.nodup_cons]
    refine ⟨?_, nodup_walkEntries entries h.nodup fun e he => h.of_mem he⟩
    rw [List.mem_map]
    rintro ⟨⟨place, found⟩, hmem, rfl⟩
    exact ne_nil_of_mem_walkEntries hmem rfl
  | .file content, _ => by simp [walk]
  | .link target, _ => by simp [walk]

theorem nodup_walkEntries : ∀ (entries : List (String × Item)), (entries.map (·.1)).Nodup →
    (∀ e ∈ entries, e.2.NamesDiffer) → ((walkEntries entries).map (·.1)).Nodup
  | [], _, _ => by simp [walkEntries]
  | (name, item) :: entries, hnames, hdiffer => by
    rw [List.map_cons, List.nodup_cons] at hnames
    obtain ⟨hitem, hentries⟩ := List.forall_mem_cons.1 hdiffer
    rw [walkEntries, List.map_append, List.map_map, List.nodup_append]
    refine ⟨?_, nodup_walkEntries entries hnames.2 hentries, ?_⟩
    · have hcons := (NamesDiffer.nodup_walk item hitem).map (List.cons_injective (a := name))
      rwa [List.map_map] at hcons
    · -- a place below the first entry starts with its name, which no other entry has
      intro place hfirst other hother he
      subst he
      obtain ⟨e, -, rfl⟩ := List.mem_map.1 hfirst
      obtain ⟨⟨_, found⟩, hmem, rfl⟩ := List.mem_map.1 hother
      obtain ⟨_, child, _, he, hentry, -⟩ := Item.mem_walkEntries_iff.1 hmem
      obtain ⟨rfl, -⟩ := List.cons.inj he
      exact hnames.1 (List.mem_map.2 ⟨_, hentry, rfl⟩)

end

end ReleaseGate.Files.Item
