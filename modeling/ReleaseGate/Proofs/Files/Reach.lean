import ReleaseGate.Proofs.Files.Grows

/-!
# Paths in trees that grow

A path that leads to an item still leads there when the tree has grown. A path that led to a free
name leads to what has that name now.
-/
namespace ReleaseGate.Files

namespace Item.Grows

variable {written : Place → Prop} {old new : Item}

/-- Only a file can be written over. -/
theorem not_written (h : Grows written old new) {place : Place} {item : Item}
    (hitem : old.at? place = some item) (hfile : ∀ content, item ≠ .file content) :
    ¬ written place := by
  intro hw
  obtain ⟨content, he⟩ := (h.file place hw).2 item hitem
  exact hfile content he

theorem outline_eq (h : Grows written old new) {place : Place} {item later : Item}
    (hw : ¬ written place) (hold : old.at? place = some item) (hnew : new.at? place = some later) :
    later.outline = item.outline := by
  have hkept := h.kept place item hw hold
  rwa [hnew, Option.map_some, Option.some.injEq] at hkept

theorem isSome (h : Grows written old new) {place : Place} {item : Item}
    (hitem : old.at? place = some item) : (new.at? place).isSome := by
  by_cases hw : written place
  · obtain ⟨content, hfile⟩ := (h.file place hw).1
    rw [hfile]
    rfl
  · have hkept := h.kept place item hw hitem
    rw [← Option.isSome_map (f := outline), hkept]
    rfl

theorem folder (h : Grows written old new) {place : Place} {entries : List (String × Item)}
    (hfolder : old.at? place = some (.folder entries)) :
    ∃ more, new.at? place = some (.folder more) := by
  have hw : ¬ written place := h.not_written hfolder (by simp)
  obtain ⟨later, hlater⟩ := Option.isSome_iff_exists.1 (h.isSome hfolder)
  obtain ⟨more, rfl⟩ := outline_eq_folder_iff.1 (h.outline_eq hw hfolder hlater)
  exact ⟨more, hlater⟩

theorem link (h : Grows written old new) {place : Place} {target : String}
    (hlink : old.at? place = some (.link target)) : new.at? place = some (.link target) := by
  have hw : ¬ written place := h.not_written hlink (by simp)
  obtain ⟨later, hlater⟩ := Option.isSome_iff_exists.1 (h.isSome hlink)
  rw [hlater, outline_eq_link_iff.1 (h.outline_eq hw hlink hlater)]

/-- No link is new. -/
theorem not_link (h : Grows written old new) {place : Place}
    (hold : ∀ target, old.at? place ≠ some (.link target)) (target : String) :
    new.at? place ≠ some (.link target) := by
  intro hnew
  by_cases hw : written place
  · obtain ⟨content, hfile⟩ := (h.file place hw).1
    simp [hfile] at hnew
  · cases hplace : old.at? place with
    | none =>
      obtain ⟨entries, hfolder⟩ := h.added place _ hw hplace hnew
      simp at hfolder
    | some item =>
      apply hold target
      rw [hplace, outline_eq_link_iff.1 (h.outline_eq hw hplace hnew).symm]

theorem file_iff (h : Grows written old new) {place : Place} (hw : ¬ written place)
    {content : List UInt8} :
    new.at? place = some (.file content) ↔ old.at? place = some (.file content) := by
  constructor
  · intro hnew
    cases hplace : old.at? place with
    | none =>
      obtain ⟨entries, hfolder⟩ := h.added place _ hw hplace hnew
      simp at hfolder
    | some item => rw [outline_eq_file_iff.1 (h.outline_eq hw hplace hnew).symm]
  · intro hold
    obtain ⟨later, hlater⟩ := Option.isSome_iff_exists.1 (h.isSome hold)
    rw [hlater, outline_eq_file_iff.1 (h.outline_eq hw hold hlater)]

end Item.Grows

/-- Where a path leads in a tree that has grown, if it led somewhere before. -/
def Reach.Stays (new : Item) : Reach → Reach → Prop
  | .found place, after => after = .found place
  | .vacant folder name, after =>
    after = if (new.at? (folder ++ [name])).isSome then .found (folder ++ [name])
      else .vacant folder name
  | .missing, _ => True
  | .blocked, _ => True

namespace FileSystem

variable {written : Place → Prop} {old new : Item}

section Step

/-! Following one part from a folder. -/

variable {root : Item} {place : Place} {entries : List (String × Item)} {part : String}
  (followLast : Bool) (viaLink : Place → List String → Reach) (parts : List String)

theorem steps_stuck (hplace : ∀ entries, root.at? place ≠ some (.folder entries)) :
    steps root followLast viaLink (part :: parts) place = .blocked := by
  rw [steps]
  split
  case h_1 entries hfolder => exact absurd hfolder (hplace entries)
  case h_2 => rfl

theorem steps_here (hplace : root.at? place = some (.folder entries))
    (hdot : part = "" ∨ part = ".") :
    steps root followLast viaLink (part :: parts) place =
      steps root followLast viaLink parts place := by
  rw [steps]
  simp only [hplace, hdot, if_true]

theorem steps_up (hplace : root.at? place = some (.folder entries)) :
    steps root followLast viaLink (".." :: parts) place =
      steps root followLast viaLink parts place.dropLast := by
  rw [steps]
  simp only [hplace]
  rfl

theorem steps_free (hplace : root.at? place = some (.folder entries))
    (hdot : ¬ (part = "" ∨ part = ".")) (hup : part ≠ "..") (hfree : entries.lookup part = none) :
    steps root followLast viaLink (part :: parts) place =
      if nameLimit < part.utf8ByteSize then .blocked
      else if parts.isEmpty then .vacant place part else .missing := by
  rw [steps]
  simp only [hplace, hdot, hup, if_false, hfree]

theorem steps_link {target : String} (hplace : root.at? place = some (.folder entries))
    (hdot : ¬ (part = "" ∨ part = ".")) (hup : part ≠ "..")
    (hlink : entries.lookup part = some (.link target)) :
    steps root followLast viaLink (part :: parts) place =
      if parts.isEmpty && !followLast then .found (place ++ [part])
      else viaLink (startOf target place) (Path.parts target ++ parts) := by
  rw [steps]
  simp only [hplace, hdot, hup, if_false, hlink]

/-- A part that names a file or a folder is gone through. -/
theorem steps_plain {child : Item} (hplace : root.at? place = some (.folder entries))
    (hdot : ¬ (part = "" ∨ part = ".")) (hup : part ≠ "..")
    (hchild : entries.lookup part = some child) (hplain : ∀ target, child ≠ .link target) :
    steps root followLast viaLink (part :: parts) place =
      steps root followLast viaLink parts (place ++ [part]) := by
  rw [steps]
  simp only [hplace, hdot, hup, if_false, hchild]

end Step

/-- What a part is at the place where it is followed. -/
inductive PartCase (root : Item) (place : Place) (part : String) : Prop
  | stuck (hplace : ∀ entries, root.at? place ≠ some (.folder entries))
  | here {entries : List (String × Item)} (hplace : root.at? place = some (.folder entries))
      (hdot : part = "" ∨ part = ".")
  | up {entries : List (String × Item)} (hplace : root.at? place = some (.folder entries))
      (hup : part = "..")
  | free {entries : List (String × Item)} (hplace : root.at? place = some (.folder entries))
      (hdot : ¬ (part = "" ∨ part = ".")) (hup : part ≠ "..") (hfree : entries.lookup part = none)
  | link {entries : List (String × Item)} {target : String}
      (hplace : root.at? place = some (.folder entries)) (hdot : ¬ (part = "" ∨ part = "."))
      (hup : part ≠ "..") (hlink : entries.lookup part = some (.link target))
  | plain {entries : List (String × Item)} {child : Item}
      (hplace : root.at? place = some (.folder entries)) (hdot : ¬ (part = "" ∨ part = "."))
      (hup : part ≠ "..") (hchild : entries.lookup part = some child)
      (hplain : ∀ target, child ≠ .link target)

theorem partCase (root : Item) (place : Place) (part : String) : PartCase root place part := by
  by_cases hfolder : ∃ entries, root.at? place = some (.folder entries)
  case neg => exact .stuck fun entries hplace => hfolder ⟨entries, hplace⟩
  obtain ⟨entries, hplace⟩ := hfolder
  by_cases hdot : part = "" ∨ part = "."
  · exact .here hplace hdot
  by_cases hup : part = ".."
  · exact .up hplace hup
  cases hentry : entries.lookup part with
  | none => exact .free hplace hdot hup hentry
  | some child =>
    by_cases hlink : ∃ target, child = .link target
    · obtain ⟨target, rfl⟩ := hlink
      exact .link hplace hdot hup hentry
    · exact .plain hplace hdot hup hentry fun target he => hlink ⟨target, he⟩

/-- The last part may name what is new. -/
theorem steps_free_stays (h : Item.Grows written old new) (followLast : Bool)
    (viaLink viaLink' : Place → List String → Reach) (parts : List String) {place : Place}
    {entries more : List (String × Item)} {part : String}
    (hplace : old.at? place = some (.folder entries)) (hmore : new.at? place = some (.folder more))
    (hdot : ¬ (part = "" ∨ part = ".")) (hup : part ≠ "..") (hfree : entries.lookup part = none) :
    (steps old followLast viaLink (part :: parts) place).Stays new
      (steps new followLast viaLink' (part :: parts) place) := by
  have hnew := Item.at?_child hmore part
  have hplain : ∀ target, new.at? (place ++ [part]) ≠ some (.link target) :=
    h.not_link (by simp [Item.at?_child hplace, hfree])
  rw [steps_free followLast viaLink parts hplace hdot hup hfree]
  split
  · trivial
  split
  case isTrue hshort hlast =>
    obtain rfl := List.isEmpty_iff.1 hlast
    rw [Reach.Stays, hnew]
    cases hfound : more.lookup part with
    | none =>
      rw [steps_free followLast viaLink' [] hmore hdot hup hfound, if_neg hshort]
      rfl
    | some child =>
      rw [steps_plain followLast viaLink' [] hmore hdot hup hfound fun target he =>
        hplain target (by rw [hnew, hfound, he])]
      rfl
  case isFalse => trivial

theorem steps_stays (h : Item.Grows written old new) (followLast : Bool)
    {viaLink viaLink' : Place → List String → Reach}
    (hvia : ∀ place parts, (viaLink place parts).Stays new (viaLink' place parts))
    (parts : List String) (place : Place) :
    (steps old followLast viaLink parts place).Stays new
      (steps new followLast viaLink' parts place) := by
  induction parts generalizing place with
  | nil => exact rfl
  | cons part parts ih =>
    cases partCase old place part with
    | stuck hplace =>
      rw [steps_stuck followLast viaLink parts hplace]
      trivial
    | here hplace hdot =>
      obtain ⟨more, hmore⟩ := h.folder hplace
      rw [steps_here followLast viaLink parts hplace hdot,
        steps_here followLast viaLink' parts hmore hdot]
      exact ih place
    | up hplace hup =>
      obtain ⟨more, hmore⟩ := h.folder hplace
      subst hup
      rw [steps_up followLast viaLink parts hplace, steps_up followLast viaLink' parts hmore]
      exact ih place.dropLast
    | free hplace hdot hup hfree =>
      obtain ⟨more, hmore⟩ := h.folder hplace
      exact steps_free_stays h followLast viaLink viaLink' parts hplace hmore hdot hup hfree
    | link hplace hdot hup hlink =>
      obtain ⟨more, hmore⟩ := h.folder hplace
      have hkept := h.link ((Item.at?_child hplace part).trans hlink)
      rw [Item.at?_child hmore part] at hkept
      rw [steps_link followLast viaLink parts hplace hdot hup hlink,
        steps_link followLast viaLink' parts hmore hdot hup hkept]
      split
      · exact rfl
      · exact hvia _ _
    | plain hplace hdot hup hchild hplain =>
      obtain ⟨more, hmore⟩ := h.folder hplace
      have hold := (Item.at?_child hplace part).trans hchild
      have hnew := Item.at?_child hmore part
      have hkept : ∀ target, new.at? (place ++ [part]) ≠ some (.link target) :=
        h.not_link (by simpa [hold] using hplain)
      obtain ⟨found, hfound⟩ := Option.isSome_iff_exists.1 (h.isSome hold)
      rw [hnew] at hfound
      rw [steps_plain followLast viaLink parts hplace hdot hup hchild hplain,
        steps_plain followLast viaLink' parts hmore hdot hup hfound fun target he =>
          hkept target (by rw [hnew, hfound, he])]
      exact ih (place ++ [part])

theorem follow_stays (h : Item.Grows written old new) (followLast : Bool) (links : Nat)
    (place : Place) (parts : List String) :
    (follow old followLast links place parts).Stays new
      (follow new followLast links place parts) := by
  induction links generalizing place parts with
  | zero =>
    have hblocked : Reach.blocked.Stays new .blocked := trivial
    exact steps_stays h followLast (fun _ _ => hblocked) parts place
  | succ links ih => exact steps_stays h followLast ih parts place

theorem steps_vacant {root : Item} {followLast : Bool} {viaLink : Place → List String → Reach}
    {folder : Place} {name : String}
    (hvia : ∀ place parts, viaLink place parts = .vacant folder name →
      ∃ entries, root.at? folder = some (.folder entries) ∧ entries.lookup name = none)
    {parts : List String} {place : Place}
    (h : steps root followLast viaLink parts place = .vacant folder name) :
    ∃ entries, root.at? folder = some (.folder entries) ∧ entries.lookup name = none := by
  induction parts generalizing place with
  | nil => simp [steps] at h
  | cons part parts ih =>
    rw [steps] at h
    split at h
    case h_1 entries hplace =>
      split at h
      · exact ih h
      split at h
      · exact ih h
      split at h
      case h_1 hfree =>
        split at h
        · simp at h
        split at h
        · simp only [Reach.vacant.injEq] at h
          obtain ⟨rfl, rfl⟩ := h
          exact ⟨entries, hplace, hfree⟩
        · simp at h
      case h_2 target htarget =>
        split at h
        · simp at h
        · exact hvia _ _ h
      case h_3 => exact ih h
    case h_2 => simp at h

theorem follow_vacant {root : Item} {followLast : Bool} {links : Nat} {place folder : Place}
    {parts : List String} {name : String}
    (h : follow root followLast links place parts = .vacant folder name) :
    ∃ entries, root.at? folder = some (.folder entries) ∧ entries.lookup name = none := by
  induction links generalizing place parts with
  | zero => exact steps_vacant (fun _ _ hvia => by simp at hvia) h
  | succ links ih => exact steps_vacant (fun _ _ hvia => ih hvia) h

/-- A free name is one in a folder that exists. -/
theorem reach_vacant {fs : FileSystem} {followLast : Bool} {p : Path} {folder : Place}
    {name : String} (h : fs.reach followLast p = .vacant folder name) :
    ∃ entries, fs.root.at? folder = some (.folder entries) ∧ entries.lookup name = none := by
  unfold reach at h
  split at h
  · simp at h
  split at h
  · simp at h
  · exact follow_vacant h

theorem isPath_of_reach {fs : FileSystem} {followLast : Bool} {path : Path} {place : Place}
    (h : fs.reach followLast path = .found place) : isPath path = true := by
  unfold reach at h
  split at h
  · cases h
  split at h
  · cases h
  case isFalse hpath => simpa using hpath

/-- A file system whose tree grows while one works in the same folder. What was there can be opened
as before. -/
structure Grows (written : Place → Prop) (fs after : FileSystem) : Prop where
  root : Item.Grows written fs.root after.root
  workingPlace : after.workingPlace = fs.workingPlace
  barred : ∀ place item, fs.root.at? place = some item →
    (place ∈ after.barred ↔ place ∈ fs.barred)

theorem Grows.refl (fs : FileSystem) : Grows Item.nowhere fs fs :=
  ⟨.refl fs.root, rfl, fun _ _ _ => .rfl⟩

theorem Grows.trans {written : Place → Prop} {a b c : FileSystem} (hab : Grows Item.nowhere a b)
    (hbc : Grows written b c) : Grows written a c where
  root := hab.root.trans hbc.root
  workingPlace := hbc.workingPlace.trans hab.workingPlace
  barred place item hitem := by
    obtain ⟨middle, hmiddle⟩ := Option.isSome_iff_exists.1 (hab.root.isSome hitem)
    exact (hbc.barred place middle hmiddle).trans (hab.barred place item hitem)

theorem Grows.reach {written : Place → Prop} {fs after : FileSystem} (h : Grows written fs after)
    (followLast : Bool) (p : Path) :
    (fs.reach followLast p).Stays after.root (after.reach followLast p) := by
  unfold FileSystem.reach
  rw [h.workingPlace]
  split
  · trivial
  split
  · trivial
  · exact follow_stays h.root followLast linkLimit _ _

theorem Grows.reach_found {written : Place → Prop} {fs after : FileSystem}
    (h : Grows written fs after) {followLast : Bool} {p : Path} {place : Place}
    (hfound : fs.reach followLast p = .found place) : after.reach followLast p = .found place := by
  have hstays := h.reach followLast p
  rw [hfound] at hstays
  exact hstays

theorem item?_eq_some_iff {fs : FileSystem} {p : Path} {item : Item} :
    fs.item? p = some item ↔
      ∃ place, fs.reach true p = .found place ∧ fs.root.at? place = some item := by
  unfold item?
  cases fs.reach true p <;> simp

theorem opened?_eq_some_iff {fs : FileSystem} {p : Path} {item : Item} :
    fs.opened? p = some item ↔
      ∃ place, fs.reach true p = .found place ∧ place ∉ fs.barred ∧
        fs.root.at? place = some item := by
  unfold opened?
  cases fs.reach true p <;> simp

theorem content?_eq_some_iff {fs : FileSystem} {p : Path} {content : List UInt8} :
    fs.content? p = some content ↔
      ∃ place, fs.reach true p = .found place ∧ place ∉ fs.barred ∧
        fs.root.at? place = some (.file content) := by
  rw [← opened?_eq_some_iff, FileSystem.content?]
  cases fs.opened? p with
  | none => simp
  | some item => cases item <;> simp

theorem folder?_eq_some_iff {fs : FileSystem} {p : Path} {entries : List (String × Item)} :
    fs.folder? p = some entries ↔
      ∃ place, fs.reach true p = .found place ∧ place ∉ fs.barred ∧
        fs.root.at? place = some (.folder entries) := by
  rw [← opened?_eq_some_iff, folder?]
  cases fs.opened? p with
  | none => simp
  | some item => cases item <;> simp

theorem isFile_eq_true_iff {fs : FileSystem} {p : Path} :
    fs.isFile p = true ↔ ∃ content, fs.item? p = some (.file content) := by
  unfold isFile
  cases fs.item? p with
  | none => simp
  | some item => cases item <;> simp [Item.isFile]

theorem isFolder_eq_true_iff {fs : FileSystem} {p : Path} :
    fs.isFolder p = true ↔ ∃ entries, fs.item? p = some (.folder entries) := by
  unfold isFolder
  cases fs.item? p with
  | none => simp
  | some item => cases item <;> simp [Item.isFolder]

theorem isFile_of_content? {fs : FileSystem} {p : Path} {content : List UInt8}
    (h : fs.content? p = some content) : fs.isFile p = true := by
  obtain ⟨place, hreach, -, hfile⟩ := content?_eq_some_iff.1 h
  exact isFile_eq_true_iff.2 ⟨content, item?_eq_some_iff.2 ⟨place, hreach, hfile⟩⟩

theorem content?_eq_none_of_not_isFile {fs : FileSystem} {p : Path} (h : fs.isFile p = false) :
    fs.content? p = none := by
  cases hcontent : fs.content? p with
  | none => rfl
  | some content => simp [isFile_of_content? hcontent] at h

/-- A file keeps its content unless the path leads to a place that is written. -/
theorem Grows.content? {written : Place → Prop} {fs after : FileSystem} (h : Grows written fs after)
    {p : Path} {content : List UInt8} (hcontent : fs.content? p = some content)
    (hplain : ∀ place, after.reach true p = .found place → ¬ written place) :
    after.content? p = some content := by
  obtain ⟨place, hfound, hopen, hfile⟩ := content?_eq_some_iff.1 hcontent
  have hafter := h.reach_found hfound
  exact content?_eq_some_iff.2 ⟨place, hafter, mt (h.barred place _ hfile).1 hopen,
    (h.root.file_iff (hplain place hafter)).2 hfile⟩

theorem mem_barred_put {fs : FileSystem} {place other : Place} {item : Item} :
    other ∈ (fs.put place item).barred ↔ other ∈ fs.barred ∧ other ≠ place := by
  simp [put]

/-- What is put somewhere can be opened. -/
theorem not_mem_barred_put (fs : FileSystem) (place : Place) (item : Item) :
    place ∉ (fs.put place item).barred := by
  simp [mem_barred_put]

/-- Nothing else becomes open when something is put where nothing barred was. -/
theorem mem_barred_put_iff {fs : FileSystem} {place : Place}
    (hopen : ∀ item, fs.root.at? place = some item → place ∉ fs.barred) (new : Item) (other : Place)
    (item : Item) (hitem : fs.root.at? other = some item) :
    other ∈ (fs.put place new).barred ↔ other ∈ fs.barred := by
  rw [mem_barred_put, and_iff_left_iff_imp]
  rintro hbarred rfl
  exact hopen item hitem hbarred

theorem grows_makeFolder (fs : FileSystem) (p : Path) :
    Grows Item.nowhere fs (fs.makeFolder p).1 := by
  unfold makeFolder
  simp only
  split
  case h_1 folder name hreached =>
    obtain ⟨entries, hfolder, hfree⟩ := reach_vacant hreached
    exact ⟨Item.grows_put_folder hfolder hfree, rfl,
      mem_barred_put_iff (by simp [Item.at?_child hfolder, hfree]) _⟩
  case h_2 => exact .refl fs

/-- A file that is written is found where its path leads. -/
theorem write?_eq_some {fs after : FileSystem} {p : Path} {content : List UInt8}
    (h : fs.write? p content = some after) :
    ∃ place, Grows (· = place) fs after ∧ after.reach true p = .found place ∧
      place ∉ after.barred ∧ after.root.at? place = some (.file content) := by
  unfold write? at h
  split at h
  case h_1 place hreach =>
    split at h
    case h_1 old hfile =>
      split at h
      · simp at h
      rename_i hopen
      obtain rfl := Option.some.inj h
      have hgrows : Grows (· = place) fs (fs.put place (.file content)) :=
        ⟨Item.grows_overwrite hfile content, rfl,
          mem_barred_put_iff (fun _ _ => by simpa using hopen) _⟩
      exact ⟨place, hgrows, hgrows.reach_found hreach, not_mem_barred_put _ _ _,
        Item.at?_put_self _ _ _⟩
    case h_2 => simp at h
  case h_2 folder name hreach =>
    obtain rfl := Option.some.inj h
    obtain ⟨entries, hfolder, hfree⟩ := reach_vacant hreach
    have hgrows : Grows (· = folder ++ [name]) fs (fs.put (folder ++ [name]) (.file content)) :=
      ⟨Item.grows_put_file hfolder (by simp [hfree]) content, rfl,
        mem_barred_put_iff (by simp [Item.at?_child hfolder, hfree]) _⟩
    have hfile : (fs.put (folder ++ [name]) (.file content)).root.at? (folder ++ [name]) =
        some (.file content) := Item.at?_put_self _ _ _
    have hstays := hgrows.reach true p
    rw [hreach, Reach.Stays, hfile, Option.isSome_some, if_pos rfl] at hstays
    exact ⟨folder ++ [name], hgrows, hstays, not_mem_barred_put _ _ _, hfile⟩
  case h_3 => simp at h

end FileSystem

end ReleaseGate.Files
