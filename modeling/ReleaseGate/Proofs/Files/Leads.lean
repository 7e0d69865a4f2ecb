import Mathlib.Data.List.DropRight
import ReleaseGate.Files.Glob
import ReleaseGate.Proofs.Files.Grows
import ReleaseGate.Proofs.NameMap

/-!
# Where patterns lead

The parts of a pattern lead from an item to items at or below it, by names alone: no link is
followed and no name leads up. In a tree without links this is what a search is for.
-/
namespace ReleaseGate.Files

namespace Item

/-- A name that an item in a folder can have. -/
structure IsName (name : String) : Prop where
  ne_empty : name ≠ ""
  ne_dot : name ≠ "."
  ne_dots : name ≠ ".."
  slash : '/' ∉ name.toList
  null : '\x00' ∉ name.toList

theorem isName_iff {name : String} : IsName name ↔
    name ≠ "" ∧ name ≠ "." ∧ name ≠ ".." ∧ '/' ∉ name.toList ∧ '\x00' ∉ name.toList := by
  constructor
  · intro h
    exact ⟨h.ne_empty, h.ne_dot, h.ne_dots, h.slash, h.null⟩
  · rintro ⟨hempty, hdot, hdots, hslash, hnull⟩
    exact ⟨hempty, hdot, hdots, hslash, hnull⟩

instance (name : String) : Decidable (IsName name) :=
  decidable_of_iff _ isName_iff.symm

/-- An item with no link at or below it, whose folders hold names that differ. -/
structure IsPlain (item : Item) : Prop where
  unlinked : ∀ place target, item.at? place ≠ some (.link target)
  named : ∀ place entries, item.at? place = some (.folder entries) → ∀ e ∈ entries, IsName e.1
  distinct : ∀ place entries, item.at? place = some (.folder entries) → (entries.map (·.1)).Nodup

variable {item child : Item} {name : String}

theorem IsPlain.at? (h : IsPlain item) {place : Place} (hchild : item.at? place = some child) :
    IsPlain child where
  unlinked more target := by
    have hunlinked := h.unlinked (place ++ more) target
    rwa [at?_append, hchild] at hunlinked
  named more entries hfolder := by
    apply h.named (place ++ more)
    rw [at?_append, hchild, Option.bind_some, hfolder]
  distinct more entries hfolder := by
    apply h.distinct (place ++ more)
    rw [at?_append, hchild, Option.bind_some, hfolder]

theorem isPlain_file (content : List UInt8) : IsPlain (.file content) where
  unlinked place target h := by cases (at?_file h).2
  named place entries h := by cases (at?_file h).2
  distinct place entries h := by cases (at?_file h).2

theorem isPlain_folder {entries : List (String × Item)} (hnames : ∀ e ∈ entries, IsName e.1)
    (hdistinct : (entries.map (·.1)).Nodup) (hchildren : ∀ e ∈ entries, IsPlain e.2) :
    IsPlain (.folder entries) := by
  have hbelow : ∀ {place found}, (folder entries).at? place = some found →
      found = .folder entries ∨ ∃ child more, IsPlain child ∧ child.at? more = some found := by
    intro place found h
    cases place with
    | nil => exact .inl (Option.some.inj h).symm
    | cons name more =>
      rw [at?_cons, Option.bind_eq_some_iff] at h
      obtain ⟨child, hchild, hmore⟩ := h
      exact .inr ⟨child, more, hchildren _ (NameMap.mem_of_lookup hchild), hmore⟩
  constructor
  · intro place target h
    rcases hbelow h with he | ⟨child, more, hplain, hmore⟩
    · cases he
    · exact hplain.unlinked more target hmore
  · intro place found h
    rcases hbelow h with he | ⟨child, more, hplain, hmore⟩
    · obtain rfl := Item.folder.inj he
      exact hnames
    · exact hplain.named more found hmore
  · intro place found h
    rcases hbelow h with he | ⟨child, more, hplain, hmore⟩
    · obtain rfl := Item.folder.inj he
      exact hdistinct
    · exact hplain.distinct more found hmore

theorem at?_of_lookup (hchild : item.entries.lookup name = some child) :
    item.at? [name] = some child := by
  rw [at?_cons, hchild, Option.bind_some, at?_nil]

theorem isFolder_of_lookup (hchild : item.entries.lookup name = some child) :
    item.isFolder = true := by
  cases item with
  | folder entries => rfl
  | file content => simp [entries] at hchild
  | link target => simp [entries] at hchild

theorem isFolder_iff : item.isFolder = true ↔ ∃ entries, item = .folder entries := by
  cases item <;> simp [isFolder]

theorem IsPlain.of_lookup (h : IsPlain item) (hchild : item.entries.lookup name = some child) :
    IsPlain child :=
  h.at? (at?_of_lookup hchild)

theorem IsPlain.ne_link (h : IsPlain item) (target : String) : item ≠ .link target := by
  intro he
  exact h.unlinked [] target (by rw [at?_nil, he])

theorem IsPlain.isName (h : IsPlain item) (hchild : item.entries.lookup name = some child) :
    IsName name := by
  cases item with
  | folder entries => exact h.named [] entries (at?_nil _) _ (NameMap.mem_of_lookup hchild)
  | file content => simp [entries] at hchild
  | link target => simp [entries] at hchild

theorem IsPlain.any_entries_iff (h : IsPlain item) {p : String × Item → Bool} :
    item.entries.any p = true ↔
      ∃ name child, item.entries.lookup name = some child ∧ p (name, child) = true := by
  rw [List.any_eq_true]
  constructor
  · rintro ⟨⟨name, child⟩, hmem, hp⟩
    refine ⟨name, child, ?_, hp⟩
    cases item with
    | folder entries => exact NameMap.lookup_of_mem (h.distinct [] entries (at?_nil _)) hmem
    | file content => simp [entries] at hmem
    | link target => simp [entries] at hmem
  · rintro ⟨name, child, hchild, hp⟩
    exact ⟨(name, child), NameMap.mem_of_lookup hchild, hp⟩

theorem height_le_heightOf {entries : List (String × Item)} (hmem : (name, child) ∈ entries) :
    child.height ≤ heightOf entries := by
  induction entries with
  | nil => simp at hmem
  | cons e entries ih =>
    rw [heightOf]
    rcases List.mem_cons.1 hmem with rfl | hmem
    · exact Nat.le_max_left _ _
    · exact Nat.le_trans (ih hmem) (Nat.le_max_right _ _)

theorem height_lt (hchild : item.entries.lookup name = some child) :
    child.height < item.height := by
  cases item with
  | folder entries =>
    rw [height]
    exact Nat.lt_succ_of_le (height_le_heightOf (NameMap.mem_of_lookup hchild))
  | file content => simp [entries] at hchild
  | link target => simp [entries] at hchild

theorem height_at?_le {place : Place} (hchild : item.at? place = some child) :
    child.height ≤ item.height := by
  induction place generalizing item with
  | nil =>
    rw [at?_nil, Option.some.injEq] at hchild
    exact Nat.le_of_eq (congrArg height hchild.symm)
  | cons name place ih =>
    rw [at?_cons, Option.bind_eq_some_iff] at hchild
    obtain ⟨first, hfirst, hplace⟩ := hchild
    exact Nat.le_trans (ih hplace) (Nat.le_of_lt (height_lt hfirst))

mutual

/-- How many bytes the names on the longest way down take, with their slashes. -/
def extent : Item → Nat
  | .folder entries => extentOf entries
  | _ => 0

def extentOf : List (String × Item) → Nat
  | [] => 0
  | (name, item) :: entries => max (name.utf8ByteSize + 1 + item.extent) (extentOf entries)

end

theorem add_extent_le_extentOf {entries : List (String × Item)} (hmem : (name, child) ∈ entries) :
    name.utf8ByteSize + 1 + child.extent ≤ extentOf entries := by
  induction entries with
  | nil => simp at hmem
  | cons e entries ih =>
    rw [extentOf]
    rcases List.mem_cons.1 hmem with rfl | hmem
    · exact Nat.le_max_left _ _
    · exact Nat.le_trans (ih hmem) (Nat.le_max_right _ _)

theorem add_extent_le (hchild : item.entries.lookup name = some child) :
    name.utf8ByteSize + 1 + child.extent ≤ item.extent := by
  cases item with
  | folder entries =>
    rw [extent]
    exact add_extent_le_extentOf (NameMap.mem_of_lookup hchild)
  | file content => simp [entries] at hchild
  | link target => simp [entries] at hchild

end Item

namespace Glob

open Item

/-- The parts of a pattern lead from an item to one at or below it. Two asterisks at the end stand
for a folder below it. -/
inductive Leads : List Part → Item → Place → Item → Prop where
  | done {item : Item} : Leads [] item [] item
  | here {rest : List Part} {item found : Item} {place : Place} (hfolder : item.isFolder = true)
      (hrest : Leads rest item place found) : Leads (.literal "." :: rest) item place found
  | into {parts rest : List Part} {part : Part} {item child found : Item} {name : String}
      {place : Place} (hparts : parts.dropWhile Part.isDeep = part :: rest)
      (hname : part.matchName name = true) (hchild : item.entries.lookup name = some child)
      (hrest : Leads rest child place found) : Leads parts item (name :: place) found
  | last {parts : List Part} {item child : Item} {name : String} (hne : parts ≠ [])
      (hparts : parts.dropWhile Part.isDeep = []) (hchild : item.entries.lookup name = some child)
      (hfolder : child.isFolder = true) : Leads parts item [name] child
  | down {rest : List Part} {item child found : Item} {name : String} {place : Place}
      (hchild : item.entries.lookup name = some child)
      (hrest : Leads (.deep :: rest) child place found) :
      Leads (.deep :: rest) item (name :: place) found

/-- A pattern leads to nothing outside the item that it starts from. -/
theorem Leads.at? {parts : List Part} {item found : Item} {place : Place}
    (h : Leads parts item place found) : item.at? place = some found := by
  induction h with
  | done => exact at?_nil _
  | here _ _ ih => exact ih
  | into _ _ hchild _ ih => rw [at?_cons, hchild, Option.bind_some, ih]
  | last _ _ hchild _ => exact at?_of_lookup hchild
  | down hchild _ ih => rw [at?_cons, hchild, Option.bind_some, ih]

/-- Several double asterisks in a row are one. -/
theorem Leads.deep_congr {rest more : List Part} {item found : Item} {place : Place}
    (h : Leads (.deep :: rest) item place found)
    (hsame : more.dropWhile Part.isDeep = rest.dropWhile Part.isDeep) :
    Leads (.deep :: more) item place found := by
  have hdrop : ∀ rest : List Part,
      (Part.deep :: rest).dropWhile Part.isDeep = rest.dropWhile Part.isDeep :=
    fun rest => List.dropWhile_cons_of_pos rfl
  generalize hparts : Part.deep :: rest = parts at h
  induction h with
  | done => cases hparts
  | here => cases hparts
  | into hinto hname hchild hrest =>
    subst hparts
    exact .into ((hdrop more).trans (hsame.trans ((hdrop rest).symm.trans hinto))) hname hchild
      hrest
  | last _ hlast hchild hfolder =>
    subst hparts
    exact .last (List.cons_ne_nil _ more)
      ((hdrop more).trans (hsame.trans ((hdrop rest).symm.trans hlast))) hchild hfolder
  | down hchild _ ih =>
    obtain rfl := (List.cons.inj hparts).2
    exact .down hchild (ih rfl)

/-- The parts lead somewhere, if need be to a folder. -/
def Meets (needsFolder : Bool) (parts : List Part) (item : Item) : Prop :=
  ∃ place found, Leads parts item place found ∧ (needsFolder = true → found.isFolder = true)

section Meets

variable {needsFolder : Bool} {rest : List Part} {part : Part} {item : Item}

theorem meets_nil_iff : Meets needsFolder [] item ↔ (!needsFolder || item.isFolder) = true := by
  constructor
  · rintro ⟨place, found, hleads, hfolder⟩
    cases hleads with
    | done =>
      cases needsFolder with
      | false => rfl
      | true => exact hfolder rfl
    | into hparts => simp at hparts
    | last hne => exact absurd rfl hne
  · intro h
    refine ⟨[], item, .done, fun hneeds => ?_⟩
    rwa [hneeds] at h

theorem meets_dot_iff (hplain : item.IsPlain) :
    Meets needsFolder (.literal "." :: rest) item ↔
      item.isFolder = true ∧ Meets needsFolder rest item := by
  have hdrop : (Part.literal "." :: rest).dropWhile Part.isDeep = .literal "." :: rest := rfl
  constructor
  · rintro ⟨place, found, hleads, hfolder⟩
    cases hleads with
    | here hitem hrest => exact ⟨hitem, place, found, hrest, hfolder⟩
    | into hparts hname hchild hrest =>
      obtain rfl := (List.cons.inj (hdrop.symm.trans hparts)).1
      exact absurd (beq_iff_eq.1 hname).symm (hplain.isName hchild).ne_dot
    | last _ hparts => cases hdrop.symm.trans hparts
  · rintro ⟨hitem, place, found, hrest, hfolder⟩
    exact ⟨place, found, .here hitem hrest, hfolder⟩

theorem meets_cons_iff (hdeep : part.isDeep = false) (hdot : part ≠ .literal ".") :
    Meets needsFolder (part :: rest) item ↔
      ∃ name child, item.entries.lookup name = some child ∧ part.matchName name = true ∧
        Meets needsFolder rest child := by
  have hdrop : (part :: rest).dropWhile Part.isDeep = part :: rest :=
    List.dropWhile_cons_of_neg (by simp [hdeep])
  constructor
  · rintro ⟨place, found, hleads, hfolder⟩
    cases hleads with
    | here => exact absurd rfl hdot
    | into hparts hname hchild hrest =>
      rw [hdrop] at hparts
      obtain ⟨rfl, rfl⟩ := List.cons.inj hparts
      exact ⟨_, _, hchild, hname, _, found, hrest, hfolder⟩
    | last _ hparts => rw [hdrop] at hparts; cases hparts
    | down => simp [Part.isDeep] at hdeep
  · rintro ⟨name, child, hchild, hname, place, found, hrest, hfolder⟩
    exact ⟨name :: place, found, .into hdrop hname hchild hrest, hfolder⟩

theorem meets_deep_iff :
    Meets needsFolder (.deep :: rest) item ↔
      ∃ name child, item.entries.lookup name = some child ∧
        ((child.isFolder = true ∧ rest.dropWhile Part.isDeep = []) ∨
          (∃ part more, rest.dropWhile Part.isDeep = part :: more ∧ part.matchName name = true ∧
            Meets needsFolder more child) ∨
          Meets needsFolder (.deep :: rest) child) := by
  have hdrop : (Part.deep :: rest).dropWhile Part.isDeep = rest.dropWhile Part.isDeep :=
    List.dropWhile_cons_of_pos rfl
  constructor
  · rintro ⟨place, found, hleads, hfolder⟩
    cases hleads with
    | into hparts hname hchild hrest =>
      exact ⟨_, _, hchild, .inr (.inl ⟨_, _, hdrop ▸ hparts, hname, _, found, hrest, hfolder⟩)⟩
    | last _ hparts hchild hlast => exact ⟨_, _, hchild, .inl ⟨hlast, hdrop ▸ hparts⟩⟩
    | down hchild hrest => exact ⟨_, _, hchild, .inr (.inr ⟨_, found, hrest, hfolder⟩)⟩
  · rintro ⟨name, child, hchild, hlast | ⟨part, more, hparts, hname, hmore⟩ | hdown⟩
    · exact ⟨[name], child, .last (List.cons_ne_nil _ _) (hdrop.trans hlast.2) hchild hlast.1,
        fun _ => hlast.1⟩
    · obtain ⟨place, found, hleads, hfolder⟩ := hmore
      exact ⟨name :: place, found, .into (hdrop.trans hparts) hname hchild hleads, hfolder⟩
    · obtain ⟨place, found, hleads, hfolder⟩ := hdown
      exact ⟨name :: place, found, .down hchild hleads, hfolder⟩

theorem meets_deep_dropWhile_iff :
    Meets needsFolder (.deep :: rest.dropWhile Part.isDeep) item ↔
      Meets needsFolder (.deep :: rest) item := by
  have hsame := List.dropWhile_idempotent Part.isDeep rest
  constructor
  · rintro ⟨place, found, hleads, hfolder⟩
    exact ⟨place, found, hleads.deep_congr hsame.symm, hfolder⟩
  · rintro ⟨place, found, hleads, hfolder⟩
    exact ⟨place, found, hleads.deep_congr hsame, hfolder⟩

theorem isFolder_of_meets_deep (h : Meets needsFolder (.deep :: rest) item) :
    item.isFolder = true := by
  obtain ⟨name, child, hchild, -⟩ := meets_deep_iff.1 h
  exact isFolder_of_lookup hchild

theorem meets_literal_iff {name : String} (hdot : name ≠ ".") :
    Meets needsFolder (.literal name :: rest) item ↔
      ∃ child, item.entries.lookup name = some child ∧ Meets needsFolder rest child := by
  rw [meets_cons_iff rfl (by simpa using hdot)]
  constructor
  · rintro ⟨other, child, hchild, hname, hrest⟩
    obtain rfl : name = other := beq_iff_eq.1 hname
    exact ⟨child, hchild, hrest⟩
  · rintro ⟨child, hchild, hrest⟩
    exact ⟨name, child, hchild, beq_self_eq_true name, hrest⟩

theorem isFolder_of_meets_literal (hplain : item.IsPlain) {name : String}
    (h : Meets needsFolder (.literal name :: rest) item) : item.isFolder = true := by
  by_cases hdot : name = "."
  · subst hdot
    exact ((meets_dot_iff hplain).1 h).1
  · obtain ⟨child, hchild, -⟩ := (meets_literal_iff hdot).1 h
    exact isFolder_of_lookup hchild

/-- A name that leads somewhere has no null character. -/
theorem null_not_mem_of_meets {names : List String} (hplain : item.IsPlain)
    (h : Meets needsFolder (names.map .literal) item) :
    ∀ name ∈ names, '\x00' ∉ name.toList := by
  induction names generalizing item with
  | nil => simp
  | cons name names ih =>
    rw [List.map_cons] at h
    by_cases hdot : name = "."
    · subst hdot
      exact List.forall_mem_cons.2 ⟨by decide, ih hplain ((meets_dot_iff hplain).1 h).2⟩
    · obtain ⟨child, hchild, hrest⟩ := (meets_literal_iff hdot).1 h
      exact List.forall_mem_cons.2
        ⟨(hplain.isName hchild).null, ih (hplain.of_lookup hchild) hrest⟩

end Meets

end Glob

end ReleaseGate.Files
