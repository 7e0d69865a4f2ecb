import Mathlib.Logic.Equiv.Basic
import ReleaseGate.Proofs.Source.Tree

/-!
# Totals of source trees

The count of a tree is the sum of the counts of its source files, each taken by itself. It depends
on no order in which they are visited, on no place at which they are, and on nothing else that the
tree holds.
-/
namespace ReleaseGate.Source

open Files

variable {extension : String} {entries : List (String × Item)} {place : Place}
  {content : List UInt8} {tree other : Item}

/-- The source files of two trees correspond, each to one with the same content. -/
def SameSources (extension : String) (tree other : Item) : Prop :=
  ∃ f : Place → Place,
    Set.BijOn f {p | ∃ content, IsSource tree extension p content}
      {p | ∃ content, IsSource other extension p content} ∧
    ∀ p content, IsSource tree extension p content → IsSource other extension (f p) content

theorem IsSource.unique {content' : List UInt8} (h : IsSource tree extension place content)
    (h' : IsSource tree extension place content') : content = content' := by
  have hfile := h.file.symm.trans h'.file
  rwa [Option.some.injEq, Item.file.injEq] at hfile

theorem SameSources.sum_eq (h : SameSources extension tree other)
    {sources others : Finset (Place × List UInt8)}
    (hsources : ∀ place content,
      (place, content) ∈ sources ↔ IsSource tree extension place content)
    (hothers : ∀ place content,
      (place, content) ∈ others ↔ IsSource other extension place content) :
    LineCount.sum others = LineCount.sum sources := by
  obtain ⟨f, hbij, hcontent⟩ := h
  have hsum : ∀ g : List UInt8 → ℕ, ∑ e ∈ sources, g e.2 = ∑ e ∈ others, g e.2 := by
    intro g
    apply Finset.sum_nbij fun e => (f e.1, e.2)
    · rintro ⟨p, content⟩ hmem
      exact (hothers _ _).2 (hcontent p content ((hsources _ _).1 hmem))
    · rintro ⟨p, content⟩ hmem ⟨p', content'⟩ hmem' he
      rw [Prod.mk.injEq] at he
      have hp : p = p' :=
        hbij.injOn ⟨_, (hsources _ _).1 hmem⟩ ⟨_, (hsources _ _).1 hmem'⟩ he.1
      exact Prod.ext hp he.2
    · rintro ⟨q, content⟩ hmem
      obtain ⟨p, ⟨content', hp⟩, rfl⟩ := hbij.surjOn ⟨_, (hothers _ _).1 hmem⟩
      obtain rfl := (hcontent p content' hp).unique ((hothers _ _).1 hmem)
      exact ⟨(p, content'), (hsources _ _).2 hp, rfl⟩
    · intro e _
      rfl
  unfold LineCount.sum
  rw [hsum fun content => (LineCount.ofText (Text.Utf8.decodeLossy content)).files,
    hsum fun content => (LineCount.ofText (Text.Utf8.decodeLossy content)).rawLines,
    hsum fun content => (LineCount.ofText (Text.Utf8.decodeLossy content)).logicalLines]

/-- The name is free in a folder of the tree. -/
def IsFree (tree : Item) (folder : Place) (name : String) : Prop :=
  ∃ held, tree.at? folder = some (.folder held) ∧ held.lookup name = none

variable {folder : Place} {name : String}

theorem IsFree.at?_append (h : IsFree tree folder name) (more : Place) :
    tree.at? (folder ++ name :: more) = none := by
  obtain ⟨held, hfolder, hfree⟩ := h
  rw [Item.at?_append, hfolder, Option.bind_some, Item.at?_cons, Item.entries, hfree,
    Option.bind_none]

/-- What is put in a free name adds its own files. -/
theorem IsFree.isSource_put_iff (h : IsFree tree folder name) {added : Item} :
    IsSource (.put added (folder ++ [name]) tree) extension place content ↔
      IsSource tree extension place content ∨
        ∃ more, place = folder ++ name :: more ∧ added.at? more = some (.file content) ∧
          IsNamed extension (name :: more) := by
  by_cases hbelow : folder ++ [name] <+: place
  · obtain ⟨more, rfl⟩ := hbelow
    have hvacant : ¬ IsSource tree extension (folder ++ [name] ++ more) content := by
      intro hsource
      have hfile := hsource.file
      rw [List.append_assoc, List.singleton_append, h.at?_append] at hfile
      cases hfile
    rw [or_iff_right hvacant]
    constructor
    · rintro ⟨hfile, hnamed⟩
      rw [Item.at?_put_append] at hfile
      rw [List.append_assoc, List.singleton_append] at hnamed ⊢
      exact ⟨more, rfl, hfile, (isNamed_append_cons _ _ _).1 hnamed⟩
    · rintro ⟨more', hmore, hfile, hnamed⟩
      rw [List.append_assoc, List.singleton_append, List.append_cancel_left_eq,
        List.cons.injEq] at hmore
      obtain ⟨-, rfl⟩ := hmore
      refine ⟨by rwa [Item.at?_put_append], ?_⟩
      rwa [List.append_assoc, List.singleton_append, isNamed_append_cons]
  · have hnot : ¬ ∃ more, place = folder ++ name :: more ∧
        added.at? more = some (.file content) ∧ IsNamed extension (name :: more) := by
      rintro ⟨more, rfl, -⟩
      exact hbelow ⟨more, by simp⟩
    rw [or_iff_left hnot]
    obtain ⟨held, hfolder, -⟩ := h
    have houtline := Item.outline_at?_put added hfolder hbelow
    have hfile : ∀ found : Option Item,
        found.map Item.outline = some (.file content) ↔ found = some (.file content) := by
      intro found
      cases found with
      | none => simp
      | some item => simp [Item.outline_eq_file_iff]
    have hboth : (Item.put added (folder ++ [name]) tree).at? place = some (.file content) ↔
        tree.at? place = some (.file content) := by
      rw [← hfile, houtline, hfile]
    constructor
    · rintro ⟨hput, hnamed⟩
      exact ⟨hboth.1 hput, hnamed⟩
    · rintro ⟨hold, hnamed⟩
      exact ⟨hboth.2 hold, hnamed⟩

/-- Files without the extension, links and folders that hold no more than these add nothing. -/
theorem IsFree.sameSources_put (h : IsFree tree folder name) {added : Item}
    (hadded : ∀ more content, added.at? more = some (.file content) →
      ¬ IsNamed extension (name :: more)) :
    SameSources extension tree (.put added (folder ++ [name]) tree) := by
  have hsame : ∀ p content, IsSource (.put added (folder ++ [name]) tree) extension p content ↔
      IsSource tree extension p content := by
    intro p content
    rw [h.isSource_put_iff, or_iff_left]
    rintro ⟨more, -, hfile, hnamed⟩
    exact hadded more content hfile hnamed
  refine ⟨id, ?_, fun p content => (hsame p content).2⟩
  simp only [hsame]
  exact Set.bijOn_id _

/-- A file counts alike in whichever folder it is. -/
theorem IsFree.sameSources_move {folder' : Place} (h : IsFree tree folder name)
    (h' : IsFree tree folder' name) (content : List UInt8) :
    SameSources extension (.put (.file content) (folder ++ [name]) tree)
      (.put (.file content) (folder' ++ [name]) tree) := by
  have hput : ∀ {at' : Place}, IsFree tree at' name → ∀ p found,
      IsSource (.put (.file content) (at' ++ [name]) tree) extension p found ↔
        IsSource tree extension p found ∨
          p = at' ++ [name] ∧ found = content ∧ IsNamed extension [name] := by
    intro at' hfree p found
    rw [hfree.isSource_put_iff]
    refine or_congr_right ?_
    constructor
    · rintro ⟨more, rfl, hfile, hnamed⟩
      obtain ⟨rfl, hfound⟩ := Item.at?_file hfile
      rw [Item.file.injEq] at hfound
      exact ⟨rfl, hfound, hnamed⟩
    · rintro ⟨rfl, rfl, hnamed⟩
      exact ⟨[], rfl, Item.at?_nil _, hnamed⟩
  have hne : ∀ {at' p : Place} {found}, IsFree tree at' name → IsSource tree extension p found →
      p ≠ at' ++ [name] := by
    rintro at' p found hfree hsource rfl
    have hfile := hsource.file
    rw [hfree.at?_append] at hfile
    cases hfile
  have hswap : ∀ {from' to' : Place}, IsFree tree from' name → IsFree tree to' name →
      ∀ p found, IsSource (.put (.file content) (from' ++ [name]) tree) extension p found →
        IsSource (.put (.file content) (to' ++ [name]) tree) extension
          (Equiv.swap (from' ++ [name]) (to' ++ [name]) p) found := by
    intro from' to' hfrom hto p found hsource
    rw [hput hto]
    rcases (hput hfrom p found).1 hsource with hold | ⟨rfl, hfound, hnamed⟩
    · rw [Equiv.swap_apply_of_ne_of_ne (hne hfrom hold) (hne hto hold)]
      exact .inl hold
    · rw [Equiv.swap_apply_left]
      exact .inr ⟨rfl, hfound, hnamed⟩
  refine ⟨Equiv.swap (folder ++ [name]) (folder' ++ [name]), ⟨?_, ?_, ?_⟩, hswap h h'⟩
  · rintro p ⟨found, hsource⟩
    exact ⟨found, hswap h h' p found hsource⟩
  · exact (Equiv.injective _).injOn
  · rintro q ⟨found, hsource⟩
    have hback := hswap h' h q found hsource
    rw [Equiv.swap_comm] at hback
    exact ⟨_, ⟨found, hback⟩, Equiv.swap_apply_self _ _ _⟩

/-- The count of a tree whose folders can be listed and whose source files can be read is the sum
over its source files. If something is out of reach there is an error and no count. Nothing but the
source files matters, and of these only what they hold: what has another name, a link or a folder
adds nothing, and a file may be in any folder. -/
theorem countFiles_eq_sum {fs : FileSystem} {root : Path}
    (hroot : fs.item? root = some (.folder entries))
    (hnames : (Item.folder entries).NamesDiffer) (extension : String) :
    (WithinReach fs root extension entries → ∃ sources : Finset (Place × List UInt8),
      (∀ place content, (place, content) ∈ sources ↔
        IsSource (.folder entries) extension place content) ∧
      countFiles fs root extension = .ok (.sum sources) ∧
      (LineCount.sum sources).logicalLines ≤ (LineCount.sum sources).rawLines) ∧
    (¬ WithinReach fs root extension entries →
      ∃ e, countFiles fs root extension = .error e ∧ OutOfReach fs root extension entries e) ∧
    (∀ (other : FileSystem) moved others, other.item? moved = some (.folder others) →
      (Item.folder others).NamesDiffer → WithinReach fs root extension entries →
      WithinReach other moved extension others →
      SameSources extension (.folder entries) (.folder others) →
      countFiles other moved extension = countFiles fs root extension) ∧
    (∀ folder name added, IsFree (.folder entries) folder name →
      (∀ more content, added.at? more = some (.file content) →
        ¬ IsNamed extension (name :: more)) →
      SameSources extension (.folder entries)
        (.put added (folder ++ [name]) (.folder entries))) ∧
    ∀ folder folder' name content, IsFree (.folder entries) folder name →
      IsFree (.folder entries) folder' name →
      SameSources extension (.put (.file content) (folder ++ [name]) (.folder entries))
        (.put (.file content) (folder' ++ [name]) (.folder entries)) := by
  have hmem : ∀ {held : List (String × Item)}, (Item.folder held).NamesDiffer →
      ∀ place content, (place, content) ∈ (sourceFiles extension held).toFinset ↔
        IsSource (.folder held) extension place content := by
    intro held hheld place content
    rw [List.mem_toFinset, mem_sourceFiles_iff hheld]
  have hcount : ∀ {files : FileSystem} {path : Path} {held : List (String × Item)},
      files.item? path = some (.folder held) → (Item.folder held).NamesDiffer →
      WithinReach files path extension held →
        countFiles files path extension = .ok (.sum (sourceFiles extension held).toFinset) := by
    intro files path held hfolder hheld hreach
    rw [countFiles_of_withinReach hfolder hreach, LineCount.ofFolder,
      LineCount.total_eq_sum (nodup_sourceFiles hheld)]
  refine ⟨fun hreach => ?_, exists_countFiles_of_not_withinReach hroot, ?_, ?_, ?_⟩
  · exact ⟨_, hmem hnames, hcount hroot hnames hreach, LineCount.logicalLines_sum_le _⟩
  · intro other moved others hmoved hothers hreach hreach' hsame
    rw [hcount hroot hnames hreach, hcount hmoved hothers hreach',
      hsame.sum_eq (hmem hnames) (hmem hothers)]
  · intro folder name added hfree hadded
    exact hfree.sameSources_put hadded
  · intro folder folder' name content hfree hfree'
    exact hfree.sameSources_move hfree' content

/-- Only `a.rs`, which leaves its comment open, and what is added to the folders can count. -/
def manyNamed (inLib inMarked : List (String × Item)) : List (String × Item) :=
  [("a.rs", .file (Text.Utf8.encode "f()\n/*\n".toList)),
    ("lib", .folder (("notes.txt", .file (Text.Utf8.encode "f()\n".toList)) :: inLib)),
    ("marked.rs", .folder inMarked),
    (".rs", .file (Text.Utf8.encode "f()\n".toList)),
    ("link.rs", .link "a.rs")]

def dotted : List (String × Item) :=
  [("b.c.rs", .file (Text.Utf8.encode "g()".toList))]

/-- A tree in the outermost folder, under the given name. -/
def heldAs (name : String) (entries : List (String × Item)) : FileSystem where
  root := .folder [(name, .folder entries)]
  workingPlace := []

theorem countFiles_eq_sum_manyNamed :
    (∃ sources : Finset (Place × List UInt8),
      (∀ place content, (place, content) ∈ sources ↔
        IsSource (.folder (manyNamed dotted [])) "rs" place content) ∧
      LineCount.sum sources = ⟨2, 3, 2⟩) ∧
    countFiles (heldAs "r" (manyNamed dotted [])) "r" "rs" = .ok ⟨2, 3, 2⟩ ∧
    countFiles (heldAs "s" (manyNamed [] dotted)) "s" "rs" = .ok ⟨2, 3, 2⟩ := by
  have hnames : (Item.folder (manyNamed [] [])).NamesDiffer ∧
      (Item.folder (manyNamed dotted [])).NamesDiffer ∧
      (Item.folder (manyNamed [] dotted)).NamesDiffer := by
    refine ⟨?_, ?_, ?_⟩ <;> refine Item.namesDiffer_folder (by decide) ?_ <;>
      simp [manyNamed, dotted, Item.namesDiffer_file, Item.namesDiffer_link,
        Item.namesDiffer_folder]
  obtain ⟨hbase, hlib, hmarked⟩ := hnames
  have hroot : (heldAs "t" (manyNamed [] [])).item? "t" = some (.folder (manyNamed [] [])) := rfl
  have hroot' : (heldAs "r" (manyNamed dotted [])).item? "r" =
      some (.folder (manyNamed dotted [])) := rfl
  have hreach : WithinReach (heldAs "r" (manyNamed dotted [])) "r" "rs" (manyNamed dotted []) := by
    decide +kernel
  have hreach' : WithinReach (heldAs "s" (manyNamed [] dotted)) "s" "rs" (manyNamed [] dotted) := by
    decide +kernel
  have hvalue : (countFiles (heldAs "r" (manyNamed dotted [])) "r" "rs").toOption =
      some ⟨2, 3, 2⟩ := by
    decide +kernel
  obtain ⟨hcount, -, hsame, -⟩ := countFiles_eq_sum hroot' hlib "rs"
  obtain ⟨-, -, -, -, hmove⟩ := countFiles_eq_sum hroot hbase "rs"
  obtain ⟨sources, hmem, hsum, -⟩ := hcount hreach
  have htotal : LineCount.sum sources = ⟨2, 3, 2⟩ := by
    rwa [hsum, Except.toOption, Option.some.injEq] at hvalue
  have hmoved : SameSources "rs" (.folder (manyNamed dotted [])) (.folder (manyNamed [] dotted)) :=
    hmove ["lib"] ["marked.rs"] "b.c.rs" _ ⟨_, rfl, rfl⟩ ⟨_, rfl, rfl⟩
  rw [hsame (heldAs "s" (manyNamed [] dotted)) "s" _ rfl hmarked hreach hreach' hmoved, hsum,
    htotal]
  exact ⟨⟨sources, hmem, htotal⟩, rfl, rfl⟩

/-- The path of a folder can be so long that no path is left for what is in it. -/
theorem countFiles_slashedRoot :
    let fs := heldAs "src" [("x.rs", .file [102])]
    let root := Path.slashed "src" 4092
    fs.barred = [] ∧ fs.item? root = some (.folder [("x.rs", .file [102])]) ∧
      IsSource (.folder [("x.rs", .file [102])]) "rs" ["x.rs"] [102] ∧
      LineCount.ofText (Text.Utf8.decodeLossy [102]) = ⟨1, 1, 1⟩ ∧
      countFiles fs root "rs" = .error (.unread (root.below ["x.rs"]) .overlong) := by
  intro fs root
  have hreach : fs.reach true "src" = .found ["src"] := rfl
  have hroot := FileSystem.item?_slashed hreach rfl 4092 (by decide)
  have hfull : root.utf8ByteSize = FileSystem.pathLimit := by
    rw [Path.utf8ByteSize_slashed]
    decide
  have hname : HasExtension "x.rs" "rs" := ⟨by decide, ['x'], by decide, by decide⟩
  exact ⟨rfl, hroot, ⟨rfl, "x.rs", rfl, hname⟩, by decide +kernel,
    countFiles_of_fullRoot hroot rfl hfull hname (by decide)⟩

end ReleaseGate.Source
