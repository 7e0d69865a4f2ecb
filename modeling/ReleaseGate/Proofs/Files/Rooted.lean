import ReleaseGate.Proofs.Files.Pattern
import ReleaseGate.Proofs.Files.Search

/-!
# What a root holds

A path that is put under a root is followed, or searched for, from the working folder or the
outermost one. Where the name of the root has no wildcards, both come to the root and go on below
it, so that a path which goes no way but down leads to what the root holds, or to nothing.
-/
namespace ReleaseGate.Files

/-- A path that goes no way but down, whatever it is put under. -/
structure Path.IsConfined (p : Path) : Prop where
  relative : p.isAbsolute = false
  ne_empty : p ≠ ""
  tidy : "" ∉ p.folderParts
  stays : ∀ name ∈ p.folderParts, (Glob.part? name.toList).any Glob.Part.climbs = false

theorem Path.isConfined_iff {p : Path} : p.IsConfined ↔
    p.isAbsolute = false ∧ p ≠ "" ∧ "" ∉ p.folderParts ∧
      ∀ name ∈ p.folderParts, (Glob.part? name.toList).any Glob.Part.climbs = false := by
  constructor
  · intro h
    exact ⟨h.relative, h.ne_empty, h.tidy, h.stays⟩
  · rintro ⟨hrelative, hempty, htidy, hstays⟩
    exact ⟨hrelative, hempty, htidy, hstays⟩

instance (p : Path) : Decidable p.IsConfined :=
  decidable_of_iff _ Path.isConfined_iff.symm

/-- A name with two dots in it is not confined, and neither is a pattern that may stand for them. -/
example : Path.IsConfined "src/*.rs" ∧ ¬ Path.IsConfined "src/../x" ∧
    ¬ Path.IsConfined ".*/x" := by
  decide +kernel

theorem Path.IsConfined.folderParts_ne_nil {p : Path} (h : p.IsConfined) : p.folderParts ≠ [] :=
  Path.folderParts_ne_nil (by simpa using h.ne_empty) h.relative

/-- Whatever a confined path is read as leads down. -/
theorem Path.IsConfined.descends {p : Path} (h : p.IsConfined)
    {parts : List Glob.Part} (hparts : Glob.patternParts? p = some parts) :
    ∀ part ∈ parts, part.Descends := by
  intro part hpart
  obtain ⟨name, hname, hread⟩ := (Glob.of_mapM_part? hparts).2 part hpart
  have hstays := h.stays name hname
  rw [hread] at hstays
  refine ⟨hstays, ?_⟩
  rintro literal rfl
  obtain rfl : literal = name := (Glob.eq_of_part? hread).trans String.ofList_toList
  exact ⟨fun hempty => h.tidy (hempty ▸ hname),
    Path.slash_not_mem (Path.folderParts_subset p hname)⟩

/-- No path below the root is too long for the pattern to be tried on it. -/
def HasRoom (root : Path) (tree : Item) (p : Path) : Prop :=
  root.utf8ByteSize + tree.extent + p.utf8ByteSize < FileSystem.pathLimit

instance (root : Path) (tree : Item) (p : Path) : Decidable (HasRoom root tree p) :=
  Nat.decLt _ _

/-- The parts of a path or pattern lead to something in a tree. -/
def Covers (tree : Item) (p : Path) : Prop :=
  ∃ parts, Glob.patternParts? p = some parts ∧ Glob.Meets (Glob.asksFolder p) parts tree

namespace FileSystem

open Glob Item

variable {fs : FileSystem} {root path : Path} {links : Nat} {place reached : Place}

theorem reach_eq {p : Path} (hne : p ≠ "") (hpath : isPath p = true) (followLast : Bool) :
    fs.reach followLast p =
      follow fs.root followLast linkLimit (startOf p fs.workingPlace) p.parts := by
  have hempty : p.isEmpty = false := by simpa using hne
  rw [reach, hempty, hpath]
  rfl

theorem names_outermost {entries : List (String × Item)}
    (hplace : fs.root.at? [] = some (.folder entries)) : Names fs "/" linkLimit [] where
  found := by
    have hparts : Path.parts "/" = [""] := by decide
    rw [reach_eq (by decide) (by decide), hparts]
    exact (follow_here true [] hplace (.inl rfl)).trans (follow_nil true)
  below followLast q hq hne hpath := by
    have hhere : isHere "/" = false := by decide
    have hfolder : Path.folderParts "/" = [] := by decide
    have hunder : under "/" q = Path.join "/" q := by
      rw [under, hhere]
      rfl
    obtain ⟨hparts, habsolute⟩ := @Path.parts_join "/" q rfl hq
    have hjoined : (Path.join "/" q).isEmpty = false := Path.isEmpty_join (by simpa using hne)
    rw [hunder] at hpath ⊢
    rw [reach_eq (by simpa using hjoined) hpath, hparts, hfolder, startOf, habsolute]
    rfl

theorem names_working {entries : List (String × Item)}
    (hplace : fs.root.at? fs.workingPlace = some (.folder entries)) :
    Names fs "." linkLimit fs.workingPlace where
  found := by
    have hparts : Path.parts "." = ["."] := by decide
    rw [reach_eq (by decide) (by decide), hparts]
    exact (follow_here true [] hplace (.inr rfl)).trans (follow_nil true)
  below followLast q hq hne hpath := by
    have hhere : isHere "." = true := by decide
    have hunder : under "." q = q := by
      rw [under, hhere]
      rfl
    rw [hunder] at hpath ⊢
    rw [reach_eq hne hpath, startOf, hq]
    rfl

/-- Where a search for what a path names starts. -/
def searchStart (p : Path) : Path :=
  if p.isAbsolute then "/" else "."

theorem names_searchStart {entries : List (String × Item)}
    (hplace : fs.root.at? (startOf root fs.workingPlace) = some (.folder entries)) :
    Names fs (searchStart root) linkLimit (startOf root fs.workingPlace) := by
  unfold startOf searchStart at *
  split
  case isTrue habsolute =>
    rw [if_pos habsolute] at hplace
    exact names_outermost hplace
  case isFalse hrelative =>
    rw [if_neg hrelative] at hplace
    exact names_working hplace

/-- A name without wildcards is only looked up. -/
theorem search_literal (hnames : Names fs path links place) {name : Path}
    (hslash : '/' ∉ name.toList) (hne : name ≠ "") (hpath : isPath (under path name) = true)
    (hfound : follow fs.root true links place [name] = .found reached) (needsFolder : Bool)
    (steps : Nat) {parts : List Part} (hparts : parts ≠ []) :
    search fs needsFolder (steps + 1) (.literal name :: parts) path =
      search fs needsFolder steps parts (under path name) := by
  have hthere : (if name = "." ∨ name = ".." then fs.isFolder path
      else fs.isTaken (under path name)) = true := by
    split
    · obtain ⟨entries, hfolder⟩ := folder_of_follow (List.cons_ne_nil name []) hfound
      rw [FileSystem.isFolder, item?_eq_some_iff.2 ⟨place, hnames.found, hfolder⟩]
      rfl
    · obtain ⟨other, hother⟩ := exists_found_of_follow hfound
      rw [isTaken, hnames.below false name (Path.isAbsolute_of_not_mem hslash) hne hpath,
        Path.parts_of_not_mem hslash, hother]
  rw [search, inside, hthere, Bool.true_and, proceed, List.isEmpty_eq_false_iff.2 hparts]
  rfl

/-- What the names of a place add to a path, with their slashes. -/
def placeSize (place : Place) : Nat :=
  (place.map fun name => name.utf8ByteSize + 1).sum

theorem placeSize_cons (name : String) (place : Place) :
    placeSize (name :: place) = name.utf8ByteSize + 1 + placeSize place := by
  simp [placeSize]

/-- Names without wildcards are gone through one by one to where they lead. -/
theorem exists_walk {base : List String} (hnames : Names fs path links place)
    (hbase : ∀ name ∈ base, name ≠ "" ∧ '/' ∉ name.toList ∧ '\x00' ∉ name.toList)
    (hsize : leadSize path + placeSize base ≤ pathLimit + 1)
    (hfollow : follow fs.root true links place (base ++ [""]) = .found reached) :
    ∃ last more, Names fs last more reached ∧
      leadSize last ≤ leadSize path + placeSize base ∧
      ∀ needsFolder steps parts, parts ≠ [] →
        search fs needsFolder (base.length + steps) (base.map .literal ++ parts) path =
          search fs needsFolder steps parts last := by
  induction base generalizing path links place with
  | nil =>
    have hplace : place = reached := by
      simpa [follow_nil] using ((follow_slash_iff []).1 hfollow).1
    subst hplace
    exact ⟨path, links, hnames, Nat.le_refl _, fun needsFolder steps parts _ => by simp⟩
  | cons name base ih =>
    obtain ⟨⟨hne, hslash, hnull⟩, hrest⟩ := List.forall_mem_cons.1 hbase
    rw [placeSize_cons] at hsize ⊢
    have hrelative := Path.isAbsolute_of_not_mem hslash
    have hpath : isPath (under path name) = true :=
      isPath_under (isPath_of_reach hnames.found) hrelative hnull (by omega)
    have hbelow : base ++ [""] ≠ [] := by simp
    have hfirst : follow fs.root true links place ([name] ++ (base ++ [""])) = .found reached :=
      hfollow
    obtain ⟨more, next, hfound, hway⟩ := exists_next hbelow hfirst
    have hlead := leadSize_under_le path hrelative
    obtain ⟨last, links', hlast, hsmall, hsearch⟩ := ih (hnames.step hslash hne hpath hfound hway)
      hrest (by omega) ((hway true _ hbelow).symm.trans hfollow)
    refine ⟨last, links', hlast, by omega, fun needsFolder steps parts hparts => ?_⟩
    rw [← hsearch needsFolder steps parts hparts, List.length_cons, Nat.add_right_comm]
    exact search_literal hnames hslash hne hpath hfound needsFolder _ (by simp [hparts])

/-- A root leads to a folder without links. Its name has no wildcards, and no part of it is empty
but one at the end. -/
structure Rooted (fs : FileSystem) (root : Path) (tree : Item) : Prop where
  leads : fs.item? root = some tree
  folder : tree.isFolder = true
  plain : tree.IsPlain
  literal : root.toList.any isWild = false
  tidy : "" ∉ root.folderParts

/-- All folders from where the root leads can be listed. -/
def ListsBelow (fs : FileSystem) (root : Path) : Prop :=
  ∀ place, fs.reach true root = .found place → ∀ below, ListsAt fs (place ++ below)

/-- Names that lead down are followed as a search would try them. -/
theorem follow_names_iff {names : List String} {item : Item} (hplain : item.IsPlain)
    (hitem : fs.root.at? place = some item) (hnames : ∀ name ∈ names, name ≠ "" ∧ name ≠ "..")
    (needsFolder : Bool) :
    (∃ reached found, follow fs.root true links place names = .found reached ∧
        fs.root.at? reached = some found ∧ (needsFolder = true → found.isFolder = true)) ↔
      Meets needsFolder (names.map .literal) item := by
  induction names generalizing place item with
  | nil =>
    rw [List.map_nil, meets_nil_iff, follow_nil]
    simp only [Reach.found.injEq, exists_and_left, exists_eq_left', hitem, Option.some.injEq]
    cases needsFolder with
    | false => simp
    | true => simp
  | cons name names ih =>
    obtain ⟨⟨hne, hup⟩, hrest⟩ := List.forall_mem_cons.1 hnames
    rw [List.map_cons]
    cases hfolder : item.isFolder with
    | false =>
      have hstuck : ∀ entries, fs.root.at? place ≠ some (.folder entries) := by
        intro entries he
        obtain rfl := Option.some.inj (hitem.symm.trans he)
        cases hfolder
      have hnothing : ¬ Meets needsFolder (.literal name :: names.map .literal) item := by
        intro h
        rw [isFolder_of_meets_literal hplain h] at hfolder
        cases hfolder
      simp [follow_stuck true names hstuck, hnothing]
    | true =>
      obtain ⟨entries, rfl⟩ := isFolder_iff.1 hfolder
      by_cases hdot : name = "."
      · subst hdot
        rw [follow_here true names hitem (.inr rfl), meets_dot_iff hplain, ih hplain hitem hrest]
        exact (and_iff_right hfolder).symm
      · have hhere : ¬ (name = "" ∨ name = ".") := not_or.2 ⟨hne, hdot⟩
        rw [meets_literal_iff hdot]
        cases hchild : entries.lookup name with
        | none =>
          simp only [follow_free true names hitem hhere hup hchild, Item.entries, hchild]
          simp
        | some child =>
          have hlink : ∀ target, child ≠ .link target := (hplain.of_lookup hchild).ne_link
          have hnext : fs.root.at? (place ++ [name]) = some child :=
            (at?_child hitem name).trans hchild
          rw [follow_plain true names hitem hhere hup hchild hlink,
            ih (hplain.of_lookup hchild) hnext hrest]
          simp [Item.entries, hchild]

section Rooted

variable {tree : Item} {p : Path}

theorem Rooted.ne_empty (h : Rooted fs root tree) : root ≠ "" := by
  rintro rfl
  cases h.leads

theorem Rooted.exists_follow (h : Rooted fs root tree) : ∃ place,
    fs.reach true root = .found place ∧ fs.root.at? place = some tree ∧ isPath root = true ∧
      follow fs.root true linkLimit (startOf root fs.workingPlace) (root.folderParts ++ [""]) =
        .found place := by
  have hleads := h.leads
  unfold item? at hleads
  split at hleads
  case h_2 => cases hleads
  case h_1 place hreach =>
    have hpath := isPath_of_reach hreach
    obtain ⟨entries, rfl⟩ := isFolder_iff.1 h.folder
    refine ⟨place, hreach, hleads, hpath, ?_⟩
    rw [reach_eq h.ne_empty hpath] at hreach
    rcases Path.parts_eq_folderParts root with hparts | hparts
    · rw [hparts] at hreach
      exact (follow_slash_iff _).2 ⟨hreach, entries, hleads⟩
    · rwa [hparts] at hreach

theorem placeSize_folderParts_le (p : Path) :
    placeSize p.folderParts + (if p.isAbsolute then 1 else 0) ≤ p.utf8ByteSize + 1 := by
  have hall : placeSize p.parts + _ = p.utf8ByteSize + 1 := Path.sum_utf8ByteSize_parts p
  have hle : placeSize p.folderParts ≤ placeSize p.parts := by
    rcases Path.parts_eq_folderParts p with h | h
    · rw [h]
    · rw [h, placeSize, placeSize, List.map_append, List.sum_append]
      exact Nat.le_add_right _ _
  omega

theorem two_mul_length_le {place : Place} (h : "" ∉ place) :
    2 * place.length ≤ placeSize place := by
  induction place with
  | nil => exact Nat.le_refl _
  | cons name place ih =>
    rw [List.mem_cons, not_or] at h
    have hname : name.utf8ByteSize ≠ 0 := by simpa using Ne.symm h.1
    have hrest := ih h.2
    rw [placeSize_cons, List.length_cons]
    omega

/-- A search under a root comes to what the root holds. -/
theorem Rooted.exists_stands (h : Rooted fs root tree) (hlists : fs.ListsBelow root)
    (hp : p.IsConfined) (hroom : HasRoom root tree p) {parts : List Part}
    (hparts : patternParts? p = some parts) :
    ∃ last, Stands fs parts last tree ∧ ∀ needsFolder steps,
      search fs needsFolder (root.folderParts.length + steps)
          (root.folderParts.map .literal ++ parts) (searchStart root) =
        search fs needsFolder steps parts last := by
  obtain ⟨place, hreach, hplace, hpath, hfollow⟩ := h.exists_follow
  obtain ⟨entries, hfolder⟩ := folder_of_follow (by simp) hfollow
  have hbase : ∀ name ∈ root.folderParts, name ≠ "" ∧ '/' ∉ name.toList ∧ '\x00' ∉ name.toList := by
    intro name hname
    have hmem := Path.folderParts_subset root hname
    refine ⟨fun hempty => h.tidy (hempty ▸ hname), Path.slash_not_mem hmem, fun hnull => ?_⟩
    exact (isPath_iff.1 hpath).2 (Path.exists_mem_parts_iff.1 ⟨name, hmem, hnull⟩).1
  have hroot := placeSize_folderParts_le root
  have hlimit := (isPath_iff.1 hpath).1
  have hstart : leadSize (searchStart root) = if root.isAbsolute then 1 else 0 := by
    unfold searchStart
    split
    · rfl
    · rfl
  obtain ⟨last, links, hnames, hlead, hsearch⟩ :=
    exists_walk (names_searchStart hfolder) hbase (by omega) hfollow
  obtain ⟨hlength, -⟩ := of_mapM_part? hparts
  refine ⟨last,
    ⟨⟨links, place, hnames, hplace, hlists place hreach⟩, h.plain, hp.descends hparts, ?_⟩,
    fun needsFolder steps => hsearch needsFolder steps parts ?_⟩
  · have hcount := two_mul_length_le hp.tidy
    have hsize := placeSize_folderParts_le p
    unfold HasRoom at hroom
    omega
  · apply List.ne_nil_of_length_pos
    rw [hlength]
    exact List.length_pos_iff.2 hp.folderParts_ne_nil

theorem Rooted.height_le (h : Rooted fs root tree) : tree.height ≤ fs.searchLimit := by
  obtain ⟨place, -, hplace, -⟩ := h.exists_follow
  calc tree.height ≤ fs.root.height + 1 := Nat.le_succ_of_le (height_at?_le hplace)
    _ ≤ (fs.root.height + 1) * (linkLimit + 1) := Nat.le_mul_of_pos_right _ (Nat.succ_pos _)

/-- A pattern under a root matches something just if its parts lead to something that the root
holds. -/
theorem Rooted.matchesAny_iff (h : Rooted fs root tree) (hlists : fs.ListsBelow root)
    (hp : p.IsConfined) (hroom : HasRoom root tree p) :
    fs.matchesAny (root.join p) = true ↔ Covers tree p := by
  have hempty : root.isEmpty = false := by simpa using h.ne_empty
  rw [matchesAny_eq, patternParts?_join hempty h.literal hp.relative, Covers]
  cases hparts : patternParts? p with
  | none => simp
  | some parts =>
    have hasks : asksFolder (root.join p) = asksFolder p := by
      rw [asksFolder, Path.getLast?_parts_join hempty hp.relative, asksFolder]
    have hne : parts ≠ [] := by
      apply List.ne_nil_of_length_pos
      rw [(of_mapM_part? hparts).1]
      exact List.length_pos_iff.2 hp.folderParts_ne_nil
    have hheight := h.height_le
    obtain ⟨last, hstands, hsearch⟩ := h.exists_stands hlists hp hroom hparts
    simp only [Option.map_some, List.length_append, List.length_map, Option.some.injEq,
      exists_eq_left']
    rw [hasks, (Path.parts_join hempty hp.relative).2, ← searchStart, Nat.add_assoc, hsearch]
    exact search_exact fs (asksFolder p) _ parts last tree hne hstands (by omega)

/-- Under a root names are followed from where the root leads. -/
theorem Rooted.exists_from (h : Rooted fs root tree) : ∃ links place,
    fs.root.at? place = some tree ∧ ∀ followLast rest, rest ≠ [] →
      follow fs.root followLast linkLimit (startOf root fs.workingPlace)
          (root.folderParts ++ rest) =
        follow fs.root followLast links place rest := by
  obtain ⟨place, -, hplace, -, hfollow⟩ := h.exists_follow
  obtain ⟨links, next, hnext, hway⟩ := exists_next (List.cons_ne_nil "" []) hfollow
  have hfound := ((follow_slash_iff root.folderParts).1 hfollow).1
  obtain rfl := Reach.found.inj (hnext.symm.trans hfound)
  exact ⟨links, next, hplace, hway⟩

/-- A slash at the end of a name asks for a folder. -/
theorem follow_parts_iff (p : Path) :
    (∃ reached found, follow fs.root true links place p.parts = .found reached ∧
        fs.root.at? reached = some found) ↔
      ∃ reached found, follow fs.root true links place p.folderParts = .found reached ∧
        fs.root.at? reached = some found ∧ (asksFolder p = true → found.isFolder = true) := by
  apply exists₂_congr
  intro reached found
  rw [asksFolder, beq_iff_eq, Path.folderParts]
  split
  case isTrue hlast =>
    have hparts : p.parts = p.parts.dropLast ++ [""] :=
      (List.dropLast_append_getLast? _ hlast).symm
    rw [hparts, follow_slash_iff, ← hparts]
    constructor
    · rintro ⟨⟨hfound, entries, hfolder⟩, hitem⟩
      refine ⟨hfound, hitem, fun _ => isFolder_iff.2 ⟨entries, ?_⟩⟩
      exact Option.some.inj (hitem.symm.trans hfolder)
    · rintro ⟨hfound, hitem, hfolder⟩
      obtain ⟨entries, rfl⟩ := isFolder_iff.1 (hfolder hlast)
      exact ⟨⟨hfound, entries, hitem⟩, hitem⟩
  case isFalse hlast => simp [hlast]

theorem itemExists_eq_true_iff : fs.itemExists path = true ↔
    ∃ reached found, fs.reach true path = .found reached ∧ fs.root.at? reached = some found := by
  rw [itemExists, item?, Option.isSome_iff_exists]
  cases fs.reach true path with
  | found place => simp
  | vacant folder name => simp
  | missing => simp
  | blocked => simp

theorem Rooted.isPath_join (h : Rooted fs root tree) (hp : p.IsConfined)
    (hroom : HasRoom root tree p) (hnull : '\x00' ∉ p.toList) :
    isPath (root.join p) = true := by
  obtain ⟨place, -, -, hpath, -⟩ := h.exists_follow
  obtain ⟨-, hfree⟩ := isPath_iff.1 hpath
  have hempty : root.isEmpty = false := by simpa using h.ne_empty
  unfold HasRoom at hroom
  rw [isPath_iff]
  unfold Path.join
  rw [hp.relative, hempty, Bool.false_or, if_neg Bool.false_ne_true]
  split
  · rw [String.utf8ByteSize_append, String.toList_append, List.mem_append, not_or]
    exact ⟨by omega, hfree, hnull⟩
  · have hslash : ("/").utf8ByteSize = 1 := rfl
    simp only [String.utf8ByteSize_append, String.toList_append, List.mem_append, not_or, hslash]
    exact ⟨by omega, ⟨hfree, by decide⟩, hnull⟩

/-- A name under a root leads somewhere just if its parts lead to something that the root holds. -/
theorem Rooted.itemExists_iff (h : Rooted fs root tree) (hp : p.IsConfined)
    (hroom : HasRoom root tree p) (hliteral : p.toList.any isWild = false) :
    fs.itemExists (root.join p) = true ↔ Covers tree p := by
  have hempty : root.isEmpty = false := by simpa using h.ne_empty
  have hread := not_wild_of_mem_folderParts hliteral
  have hnames : ∀ name ∈ p.folderParts, name ≠ "" ∧ name ≠ ".." := by
    intro name hname
    refine ⟨fun he => hp.tidy (he ▸ hname), ?_⟩
    rintro rfl
    have hstays := hp.stays ".." hname
    rw [part?_of_not_wild (hread ".." hname)] at hstays
    cases hstays
  obtain ⟨links, place, hplace, hway⟩ := h.exists_from
  have hfollow : (∃ reached found,
      follow fs.root true linkLimit (startOf (root.join p) fs.workingPlace) (root.join p).parts =
          .found reached ∧ fs.root.at? reached = some found) ↔
        Meets (asksFolder p) (p.folderParts.map .literal) tree := by
    obtain ⟨hparts, habsolute⟩ := Path.parts_join hempty hp.relative
    rw [startOf, habsolute, ← startOf, hparts, hway true p.parts (Path.parts_ne_nil p),
      follow_parts_iff, follow_names_iff h.plain hplace hnames]
  have hcovers : Covers tree p ↔ Meets (asksFolder p) (p.folderParts.map .literal) tree := by
    rw [Covers, patternParts?, mapM_part?_of_not_wild hread]
    simp
  have hjoined : (root.join p).isEmpty = false := Path.isEmpty_join (by simpa using hp.ne_empty)
  rw [itemExists_eq_true_iff, hcovers]
  constructor
  · rintro ⟨reached, found, hreach, hitem⟩
    rw [reach_eq (by simpa using hjoined) (isPath_of_reach hreach)] at hreach
    exact hfollow.1 ⟨reached, found, hreach, hitem⟩
  · intro hmeets
    have hnull : '\x00' ∉ p.toList := by
      intro hmem
      obtain ⟨part, hpart, hin⟩ := Path.exists_mem_parts_iff.2 ⟨hmem, by decide⟩
      have hfolder : part ∈ p.folderParts := by
        rcases Path.parts_eq_folderParts p with hparts | hparts
        · exact hparts ▸ hpart
        · rw [hparts, List.mem_append, List.mem_singleton] at hpart
          rcases hpart with hpart | rfl
          · exact hpart
          · simp at hin
      exact null_not_mem_of_meets h.plain hmeets part hfolder hin
    rw [reach_eq (by simpa using hjoined) (h.isPath_join hp hroom hnull)]
    exact hfollow.2 hmeets

end Rooted

end FileSystem

end ReleaseGate.Files
