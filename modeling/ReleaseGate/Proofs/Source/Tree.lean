import Mathlib.Algebra.Order.BigOperators.Group.Finset
import Mathlib.Data.List.TakeWhile
import ReleaseGate.Proofs.Files.Reach
import ReleaseGate.Proofs.Files.Slashed
import ReleaseGate.Proofs.Files.Walk
import ReleaseGate.Proofs.Text.Field
import ReleaseGate.Taxonomy.Build

/-!
# Source files of trees

The files that are counted in a tree are its regular files whose names have the extension, and the
count is the sum of theirs. Where a folder cannot be listed or a source file cannot be read, there
is no count.
-/
namespace ReleaseGate.Source

open Files

/-- What follows the last dot of a name, where that dot is not its first character. -/
def HasExtension (name extension : String) : Prop :=
  '.' ∉ extension.toList ∧ ∃ stem, stem ≠ [] ∧ name.toList = stem ++ '.' :: extension.toList

/-- A name is read from its end up to the first dot. -/
theorem extension?_eq_some_iff {name extension : String} :
    extension? name = some extension ↔ HasExtension name extension := by
  unfold extension? HasExtension
  simp only [List.length_reverse]
  constructor
  · intro h
    have hsplit := List.takeWhile_append_dropWhile (p := (· != '.')) (l := name.toList.reverse)
    have hnodot : '.' ∉ name.toList.reverse.takeWhile (· != '.') := fun hmem => by
      simpa using List.mem_takeWhile_imp hmem
    have hhead := List.head?_dropWhile_not (· != '.') name.toList.reverse
    generalize name.toList.reverse.takeWhile (· != '.') = tail at h hsplit hnodot
    generalize name.toList.reverse.dropWhile (· != '.') = rest at hsplit hhead
    have hlength := congrArg List.length hsplit
    rw [List.length_append, List.length_reverse] at hlength
    split at h
    case isTrue => cases h
    case isFalse hlong =>
      obtain rfl := Option.some.inj h
      cases rest with
      | nil => simp at hlength; omega
      | cons c stem =>
        obtain rfl : c = '.' := by simpa using hhead
        rw [List.length_cons] at hlength
        have hstem : stem ≠ [] := by
          rintro rfl
          rw [List.length_nil] at hlength
          omega
        rw [String.toList_ofList]
        refine ⟨by simpa using hnodot, stem.reverse, by simpa using hstem, ?_⟩
        rw [← List.reverse_inj, ← hsplit]
        simp
  · rintro ⟨hnodot, stem, hstem, hname⟩
    have hreverse : name.toList.reverse = extension.toList.reverse ++ '.' :: stem.reverse := by
      rw [hname]
      simp
    have htail : name.toList.reverse.takeWhile (· != '.') = extension.toList.reverse := by
      rw [hreverse, Text.takeWhile_ne (by simpa using hnodot)]
    have hlength : extension.toList.length + 1 < name.toList.length := by
      have hpos := List.length_pos_iff.2 hstem
      rw [hname, List.length_append, List.length_cons]
      omega
    rw [htail, List.length_reverse, if_neg (by omega), List.reverse_reverse, String.ofList_toList]

/-- The name at a place has the extension. -/
def IsNamed (extension : String) (place : Place) : Prop :=
  ∃ name, place.getLast? = some name ∧ HasExtension name extension

theorem isNamed_append_cons {extension : String} (folder : Place) (name : String) (more : Place) :
    IsNamed extension (folder ++ name :: more) ↔ IsNamed extension (name :: more) := by
  unfold IsNamed
  rw [List.getLast?_append_cons]

/-- A regular file of a tree whose name has the extension. No link leads to its place. -/
structure IsSource (tree : Item) (extension : String) (place : Place) (content : List UInt8) :
    Prop where
  file : tree.at? place = some (.file content)
  named : IsNamed extension place

variable {extension : String} {entries : List (String × Item)} {place : Place}
  {content : List UInt8}

theorem sourceFile?_eq_some_iff {e : Place × Item} :
    sourceFile? extension e = some (place, content) ↔
      e = (place, .file content) ∧ IsNamed extension place := by
  have hnamed : ∀ p : Place,
      p.getLast?.bind extension? = some extension ↔ IsNamed extension p := by
    intro p
    simp only [Option.bind_eq_some_iff, extension?_eq_some_iff, IsNamed]
  obtain ⟨p, item⟩ := e
  cases item with
  | folder held => simp [sourceFile?]
  | link target => simp [sourceFile?]
  | file held =>
    rw [sourceFile?]
    split
    case isTrue h =>
      simp only [Option.some.injEq, Prod.mk.injEq, Item.file.injEq]
      constructor
      · rintro ⟨rfl, rfl⟩
        exact ⟨⟨rfl, rfl⟩, (hnamed _).1 h⟩
      · exact fun hboth => hboth.1
    case isFalse h =>
      simp only [reduceCtorEq, false_iff, Prod.mk.injEq, Item.file.injEq]
      rintro ⟨⟨rfl, rfl⟩, hname⟩
      exact h ((hnamed _).2 hname)

/-- Where names differ, the files that are counted are the source files. -/
theorem mem_sourceFiles_iff (h : (Item.folder entries).NamesDiffer) :
    (place, content) ∈ sourceFiles extension entries ↔
      IsSource (.folder entries) extension place content := by
  rw [sourceFiles, List.mem_filterMap]
  simp only [sourceFile?_eq_some_iff]
  constructor
  · rintro ⟨e, hmem, rfl, hnamed⟩
    exact ⟨(h.mem_walkEntries_iff.1 hmem).2, hnamed⟩
  · rintro ⟨hfile, hnamed⟩
    have hne : place ≠ [] := by
      rintro rfl
      obtain ⟨name, hlast, -⟩ := hnamed
      cases hlast
    exact ⟨_, h.mem_walkEntries_iff.2 ⟨hne, hfile⟩, rfl, hnamed⟩

theorem nodup_sourceFiles (h : (Item.folder entries).NamesDiffer) :
    (sourceFiles extension entries).Nodup := by
  have hwalk : (Item.walkEntries entries).Nodup :=
    .of_map _ (Item.nodup_walkEntries entries h.nodup fun e he => h.of_mem he)
  apply hwalk.filterMap
  rintro e e' ⟨place, content⟩ he he'
  rw [Option.mem_def, sourceFile?_eq_some_iff] at he he'
  rw [he.1, he'.1]

/-- Adds up the counts of some files, each counted by itself. -/
def LineCount.sum (sources : Finset (Place × List UInt8)) : LineCount where
  files := ∑ f ∈ sources, (LineCount.ofText (Text.Utf8.decodeLossy f.2)).files
  rawLines := ∑ f ∈ sources, (LineCount.ofText (Text.Utf8.decodeLossy f.2)).rawLines
  logicalLines := ∑ f ∈ sources, (LineCount.ofText (Text.Utf8.decodeLossy f.2)).logicalLines

theorem LineCount.total_eq (counts : List LineCount) :
    LineCount.total counts = ⟨(counts.map (·.files)).sum, (counts.map (·.rawLines)).sum,
      (counts.map (·.logicalLines)).sum⟩ := by
  induction counts with
  | nil => rfl
  | cons c counts ih =>
    rw [total_cons, ih]
    rfl

theorem LineCount.total_eq_sum {files : List (Place × List UInt8)} (h : files.Nodup) :
    LineCount.total (files.map fun f => .ofText (Text.Utf8.decodeLossy f.2)) =
      .sum files.toFinset := by
  rw [total_eq, sum, List.sum_toFinset _ h, List.sum_toFinset _ h, List.sum_toFinset _ h]
  simp only [List.map_map, Function.comp_def]

theorem LineCount.logicalLines_sum_le (sources : Finset (Place × List UInt8)) :
    (LineCount.sum sources).logicalLines ≤ (LineCount.sum sources).rawLines :=
  Finset.sum_le_sum fun _ _ => LineCount.ofText_logicalLines_le _

variable {fs : FileSystem} {root : Path}

/-- The folder at `root` and those below it can be listed, and the source files can be read. -/
structure WithinReach (fs : FileSystem) (root : Path) (extension : String)
    (entries : List (String × Item)) : Prop where
  folders : ∀ e ∈ (Item.folder entries).walk, e.2.isFolder = true → fs.refusal? root e.1 = none
  files : ∀ f ∈ sourceFiles extension entries, fs.refusal? root f.1 = none

theorem withinReach_iff : WithinReach fs root extension entries ↔
    (∀ e ∈ (Item.folder entries).walk, e.2.isFolder = true → fs.refusal? root e.1 = none) ∧
    ∀ f ∈ sourceFiles extension entries, fs.refusal? root f.1 = none := by
  constructor
  · intro h
    exact ⟨h.folders, h.files⟩
  · rintro ⟨hfolders, hfiles⟩
    exact ⟨hfolders, hfiles⟩

instance (fs : FileSystem) (root : Path) (extension : String) (entries : List (String × Item)) :
    Decidable (WithinReach fs root extension entries) :=
  decidable_of_iff _ withinReach_iff.symm

theorem unlistedFolder?_eq_none_iff : unlistedFolder? fs root entries = none ↔
    ∀ e ∈ (Item.folder entries).walk, e.2.isFolder = true → fs.refusal? root e.1 = none := by
  rw [unlistedFolder?, List.findSome?_eq_none_iff]
  apply forall₂_congr
  intro e _
  split
  case isTrue hfolder => simp [hfolder]
  case isFalse hfolder => simp [hfolder]

theorem exists_of_unlistedFolder? {folder : Place} {why : Refusal}
    (h : unlistedFolder? fs root entries = some (folder, why)) :
    ∃ e ∈ (Item.folder entries).walk, e.2.isFolder = true ∧ fs.refusal? root e.1 = some why ∧
      folder = e.1 := by
  obtain ⟨e, hmem, he⟩ := List.exists_of_findSome?_eq_some h
  split at he
  case isTrue hfolder =>
    obtain ⟨found, hwhy, heq⟩ := Option.map_eq_some_iff.1 he
    obtain ⟨rfl, rfl⟩ := Prod.mk.inj heq
    exact ⟨e, hmem, hfolder, hwhy, rfl⟩
  case isFalse => cases he

theorem firstPlace_eq (p q : Place) : firstPlace p q = p ∨ firstPlace p q = q := by
  induction p generalizing q with
  | nil => exact .inl rfl
  | cons a p ih =>
    cases q with
    | nil => exact .inr rfl
    | cons b q =>
      rw [firstPlace]
      by_cases hab : a < b
      · exact .inl (if_pos hab)
      by_cases hba : b < a
      · rw [if_neg hab, if_pos hba]
        exact .inr rfl
      · obtain rfl : a = b := String.le_antisymm hba hab
        rw [if_neg hab, if_neg hab]
        rcases ih q with h | h
        · exact .inl (by rw [h])
        · exact .inr (by rw [h])

theorem foldl_firstPlace_mem (place : Place) (places : List Place) :
    places.foldl firstPlace place ∈ place :: places := by
  induction places generalizing place with
  | nil => exact List.mem_singleton_self place
  | cons other places ih =>
    rw [List.foldl_cons]
    rcases List.mem_cons.1 (ih (firstPlace place other)) with h | h
    · rcases firstPlace_eq place other with he | he
      · rw [h, he]
        exact List.mem_cons_self
      · rw [h, he]
        exact List.mem_cons_of_mem _ List.mem_cons_self
    · exact List.mem_cons_of_mem _ (List.mem_cons_of_mem _ h)

/-- Either all source files can be read, or one of those that cannot is told. -/
theorem unreadFile?_cases (fs : FileSystem) (root : Path) (extension : String)
    (entries : List (String × Item)) :
    (unreadFile? fs root extension entries = none ∧
      ∀ f ∈ sourceFiles extension entries, fs.refusal? root f.1 = none) ∨
    ∃ f ∈ sourceFiles extension entries, ∃ why, fs.refusal? root f.1 = some why ∧
      unreadFile? fs root extension entries = some (f.1, why) := by
  unfold unreadFile?
  split
  case h_1 hnone =>
    simp only [List.filter_eq_nil_iff, List.forall_mem_map, Bool.not_eq_true,
      Option.isSome_eq_false_iff, Option.isNone_iff_eq_none] at hnone
    exact .inl ⟨rfl, hnone⟩
  case h_2 place places hout =>
    have hmem := foldl_firstPlace_mem place places
    rw [← hout, List.mem_filter, List.mem_map] at hmem
    obtain ⟨⟨f, hf, he⟩, hrefused⟩ := hmem
    obtain ⟨why, hwhy⟩ := Option.isSome_iff_exists.1 hrefused
    simp only [← he] at hwhy ⊢
    exact .inr ⟨f, hf, why, hwhy, by rw [hwhy]; rfl⟩

theorem countFiles_of_not_isFolder (h : fs.isFolder root = false) :
    countFiles fs root extension = .error (.missing .sourceRoot root) := by
  unfold FileSystem.isFolder at h
  unfold countFiles
  split
  case h_1 entries hroot =>
    rw [hroot] at h
    cases h
  case h_2 => rfl

theorem countFiles_of_withinReach (hroot : fs.item? root = some (.folder entries))
    (hreach : WithinReach fs root extension entries) :
    countFiles fs root extension = .ok (.ofFolder extension entries) := by
  have hfiles : unreadFile? fs root extension entries = none := by
    rcases unreadFile?_cases fs root extension entries with ⟨hnone, -⟩ | ⟨f, hmem, why, hwhy, -⟩
    · exact hnone
    · rw [hreach.files f hmem] at hwhy
      cases hwhy
  simp only [countFiles, hroot, unlistedFolder?_eq_none_iff.2 hreach.folders, hfiles]

/-- What is out of reach is not counted as nothing. Files are read when all folders are listed. -/
inductive OutOfReach (fs : FileSystem) (root : Path) (extension : String)
    (entries : List (String × Item)) : Taxonomy.BuildError → Prop
  | unlisted {e : Place × Item} {why : Refusal} (hmem : e ∈ (Item.folder entries).walk)
      (hfolder : e.2.isFolder = true) (hwhy : fs.refusal? root e.1 = some why) :
      OutOfReach fs root extension entries (.unlisted root (root.below e.1) why)
  | unread {f : Place × List UInt8} {why : Refusal}
      (hlisted : ∀ e ∈ (Item.folder entries).walk, e.2.isFolder = true →
        fs.refusal? root e.1 = none)
      (hmem : f ∈ sourceFiles extension entries) (hwhy : fs.refusal? root f.1 = some why) :
      OutOfReach fs root extension entries (.unread (root.below f.1) why)

theorem OutOfReach.not_withinReach {e : Taxonomy.BuildError}
    (h : OutOfReach fs root extension entries e) : ¬ WithinReach fs root extension entries := by
  intro hreach
  cases h with
  | unlisted hmem hfolder hwhy => simp [hreach.folders _ hmem hfolder] at hwhy
  | unread _ hmem hwhy => simp [hreach.files _ hmem] at hwhy

theorem exists_countFiles_of_not_withinReach (hroot : fs.item? root = some (.folder entries))
    (hreach : ¬ WithinReach fs root extension entries) :
    ∃ e, countFiles fs root extension = .error e ∧ OutOfReach fs root extension entries e := by
  cases hfolder : unlistedFolder? fs root entries with
  | some refused =>
    obtain ⟨folder, why⟩ := refused
    obtain ⟨e, hmem, hisFolder, hwhy, rfl⟩ := exists_of_unlistedFolder? hfolder
    refine ⟨_, ?_, .unlisted hmem hisFolder hwhy⟩
    simp only [countFiles, hroot, hfolder]
  | none =>
    have hlisted := unlistedFolder?_eq_none_iff.1 hfolder
    rcases unreadFile?_cases fs root extension entries with ⟨-, hread⟩ | ⟨f, hmem, why, hwhy, hfile⟩
    · exact absurd ⟨hlisted, hread⟩ hreach
    · refine ⟨_, ?_, .unread hlisted hmem hwhy⟩
      simp only [countFiles, hroot, hfolder, hfile]

/-- What comes of counting a tree. -/
theorem countFiles_cases (fs : FileSystem) (root : Path) (extension : String) :
    (fs.isFolder root = false ∧
      countFiles fs root extension = .error (.missing .sourceRoot root)) ∨
    (∃ entries, fs.item? root = some (.folder entries) ∧
      WithinReach fs root extension entries ∧
      countFiles fs root extension = .ok (.ofFolder extension entries)) ∨
    ∃ entries e, fs.item? root = some (.folder entries) ∧
      OutOfReach fs root extension entries e ∧ countFiles fs root extension = .error e := by
  cases hisFolder : fs.isFolder root with
  | false => exact .inl ⟨rfl, countFiles_of_not_isFolder hisFolder⟩
  | true =>
    obtain ⟨entries, hroot⟩ := FileSystem.isFolder_eq_true_iff.1 hisFolder
    by_cases hreach : WithinReach fs root extension entries
    · exact .inr (.inl ⟨entries, hroot, hreach, countFiles_of_withinReach hroot hreach⟩)
    · obtain ⟨e, herror, hout⟩ := exists_countFiles_of_not_withinReach hroot hreach
      exact .inr (.inr ⟨entries, e, hroot, hout, herror⟩)

/-- Where the path of the root is as long as paths may be, a file in it cannot be read. -/
theorem countFiles_of_fullRoot {name : String}
    (hroot : fs.item? root = some (.folder [(name, .file content)])) (hopen : fs.barred = [])
    (hfull : root.utf8ByteSize = FileSystem.pathLimit) (hname : HasExtension name extension)
    (hslash : '/' ∉ name.toList) :
    countFiles fs root extension = .error (.unread (root.below [name]) .overlong) := by
  have hsource : sourceFiles extension [(name, .file content)] = [([name], content)] := by
    simp [sourceFiles, Item.walkEntries, Item.walk, sourceFile?, extension?_eq_some_iff.2 hname]
  have hlisted : fs.refusal? root [] = none := by
    obtain ⟨place, hreach, -⟩ := FileSystem.item?_eq_some_iff.1 hroot
    rw [FileSystem.refusal?_eq_none_iff, hopen]
    exact ⟨FileSystem.isPath_of_reach hreach, fun _ _ => List.not_mem_nil⟩
  have hunlisted : unlistedFolder? fs root [(name, .file content)] = none := by
    simp [unlistedFolder?, Item.walkEntries, Item.walk, Item.isFolder, hlisted]
  have hne : name ≠ "" := by
    rintro rfl
    obtain ⟨-, stem, hstem, hempty⟩ := hname
    simp at hempty
  have hrefused : fs.refusal? root [name] = some .overlong :=
    FileSystem.refusal?_of_overlong (FileSystem.isPath_below_eq_false hslash hne hfull)
  have hunread : unreadFile? fs root extension [(name, .file content)] =
      some ([name], .overlong) := by
    simp [unreadFile?, hsource, hrefused]
  simp only [countFiles, hroot, hunlisted, hunread]

end ReleaseGate.Source
