import ReleaseGate.Proofs.Files.Leads
import ReleaseGate.Proofs.Files.Named

/-!
# What a search finds

A search that has come to an item of a tree without links succeeds exactly if the parts that are
left lead somewhere, whatever else the file system holds. It has steps enough for every place to
which they can lead.
-/
namespace ReleaseGate.Files

namespace Glob

open Item

/-- The size of a path with the slash before a name that is put under it. -/
def leadSize (path : Path) : Nat :=
  (under path "").utf8ByteSize

theorem under_eq_append (path : Path) {q : Path} (hq : q.isAbsolute = false) :
    under path q = under path "" ++ q := by
  unfold under
  split
  · rw [String.empty_append]
  · exact Path.join_eq_append path hq

theorem utf8ByteSize_under (path : Path) {q : Path} (hq : q.isAbsolute = false) :
    (under path q).utf8ByteSize = leadSize path + q.utf8ByteSize := by
  rw [under_eq_append path hq, String.utf8ByteSize_append, leadSize]

/-- A slash at most is put between a path and a name. -/
theorem under_empty_cases (path : Path) :
    under path "" = "" ∨ under path "" = path ∨ under path "" = path ++ "/" := by
  unfold under Path.join
  split
  · exact .inl rfl
  split
  · exact .inl rfl
  split
  · exact .inr (.inl (String.append_empty))
  · exact .inr (.inr (String.append_empty))

theorem leadSize_le (path : Path) : leadSize path ≤ path.utf8ByteSize + 1 := by
  rw [leadSize]
  rcases under_empty_cases path with h | h | h
  · simp [h]
  · rw [h]
    exact Nat.le_succ _
  · rw [h, String.utf8ByteSize_append]
    exact Nat.le_refl _

theorem leadSize_under_le (path : Path) {name : Path} (hname : name.isAbsolute = false) :
    leadSize (under path name) ≤ leadSize path + name.utf8ByteSize + 1 := by
  rw [← utf8ByteSize_under path hname]
  exact leadSize_le _

open FileSystem

theorem isPath_under {path q : Path} (hpath : isPath path = true) (hq : q.isAbsolute = false)
    (hnull : '\x00' ∉ q.toList) (hsize : leadSize path + q.utf8ByteSize ≤ pathLimit) :
    isPath (under path q) = true := by
  refine isPath_iff.2 ⟨by rwa [utf8ByteSize_under path hq], ?_⟩
  have hfree := (isPath_iff.1 hpath).2
  rw [under_eq_append path hq, String.toList_append, List.mem_append, not_or]
  refine ⟨?_, hnull⟩
  rcases under_empty_cases path with h | h | h
  · simp [h]
  · rwa [h]
  · rw [h]
    simpa using hfree

/-- Whether a part may stand for a dot or two dots, and so leads out of a folder or stays there. -/
def Part.climbs (part : Part) : Bool :=
  part == .literal ".." || (part.startsWithDot && [".", ".."].any part.matchName)

/-- A part that leads down from a folder, or stays there if it is a dot. -/
structure Part.Descends (part : Part) : Prop where
  stays : part.climbs = false
  named : ∀ name, part = .literal name → name ≠ "" ∧ '/' ∉ name.toList

/-- What lies at the place can be listed if it is a folder. -/
def ListsAt (fs : FileSystem) (place : Place) : Prop :=
  ∀ entries, fs.root.at? place = some (.folder entries) → place ∉ fs.barred

/-- A search has come to an item by a path. All folders from here can be listed, what is left of the
pattern leads nowhere but down, and no path that may be tried from here is too long. -/
structure Stands (fs : FileSystem) (parts : List Part) (path : Path) (item : Item) : Prop where
  names : ∃ links place, Names fs path links place ∧ fs.root.at? place = some item ∧
    ∀ below, ListsAt fs (place ++ below)
  plain : item.IsPlain
  descends : ∀ part ∈ parts, part.Descends
  room : leadSize path + item.extent + 2 * parts.length ≤ pathLimit + 1

section Stands

variable {fs : FileSystem} {parts more rest : List Part} {path name : Path} {item child : Item}

theorem Stands.of_sublist (h : Stands fs parts path item) (hmore : more.Sublist parts) :
    Stands fs more path item where
  names := h.names
  plain := h.plain
  descends part hpart := h.descends part (hmore.subset hpart)
  room := by
    have hroom := h.room
    have hlength := hmore.length_le
    omega

theorem Stands.isPath (h : Stands fs parts path item) : isPath path = true := by
  obtain ⟨links, place, hnames, -⟩ := h.names
  exact isPath_of_reach hnames.found

theorem Stands.item?_eq (h : Stands fs parts path item) : fs.item? path = some item := by
  obtain ⟨links, place, hnames, hitem, -⟩ := h.names
  exact item?_eq_some_iff.2 ⟨place, hnames.found, hitem⟩

theorem Stands.isFolder_eq (h : Stands fs parts path item) : fs.isFolder path = item.isFolder := by
  rw [FileSystem.isFolder, h.item?_eq]
  rfl

theorem Stands.folder?_eq (h : Stands fs parts path item) :
    fs.folder? path = if item.isFolder then some item.entries else none := by
  obtain ⟨links, place, hnames, hitem, hlists⟩ := h.names
  have hhere : ListsAt fs place := by simpa using hlists []
  cases hfolder : item.isFolder with
  | true =>
    obtain ⟨entries, rfl⟩ := isFolder_iff.1 hfolder
    exact folder?_eq_some_iff.2 ⟨place, hnames.found, hhere entries hitem, hitem⟩
  | false =>
    refine Option.eq_none_iff_forall_ne_some.2 fun entries he => ?_
    obtain ⟨reached, hreach, -, hreached⟩ := folder?_eq_some_iff.1 he
    obtain rfl := Reach.found.inj (hnames.found.symm.trans hreach)
    obtain rfl := Option.some.inj (hitem.symm.trans hreached)
    cases hfolder

theorem Stands.isPath_of_lookup (h : Stands fs parts path item)
    (hchild : item.entries.lookup name = some child) :
    FileSystem.isPath (under path name) = true := by
  have hname := h.plain.isName hchild
  have hroom := h.room
  have hextent := add_extent_le hchild
  exact isPath_under h.isPath (Path.isAbsolute_of_not_mem hname.slash) hname.null (by omega)

theorem Stands.into (h : Stands fs parts path item)
    (hchild : item.entries.lookup name = some child) : Stands fs parts (under path name) child where
  names := by
    obtain ⟨links, place, hnames, hitem, hlists⟩ := h.names
    have hname := h.plain.isName hchild
    have hdot : ¬ (name = "" ∨ name = ".") := not_or.2 ⟨hname.ne_empty, hname.ne_dot⟩
    have hplain : ∀ target, child ≠ .link target := (h.plain.of_lookup hchild).ne_link
    obtain ⟨entries, rfl⟩ := isFolder_iff.1 (isFolder_of_lookup hchild)
    refine ⟨links, place ++ [name], hnames.step hname.slash hname.ne_empty
      (h.isPath_of_lookup hchild) ?_ fun followLast rest _ => ?_, ?_, fun below => ?_⟩
    · exact (follow_plain true [] hitem hdot hname.ne_dots hchild hplain).trans (follow_nil true)
    · exact follow_plain followLast rest hitem hdot hname.ne_dots hchild hplain
    · rw [at?_append, hitem, Option.bind_some, at?_of_lookup hchild]
    · rw [List.append_assoc]
      exact hlists _
  plain := h.plain.of_lookup hchild
  descends := h.descends
  room := by
    have hroom := h.room
    have hextent := add_extent_le hchild
    have hlead := leadSize_under_le path
      (Path.isAbsolute_of_not_mem (h.plain.isName hchild).slash)
    omega

theorem Stands.here (h : Stands fs (.literal "." :: rest) path item)
    (hfolder : item.isFolder = true) : Stands fs rest (under path ".") item where
  names := by
    obtain ⟨links, place, hnames, hitem, hlists⟩ := h.names
    obtain ⟨entries, rfl⟩ := isFolder_iff.1 hfolder
    have hroom := h.room
    have hpath : FileSystem.isPath (under path ".") = true := by
      apply isPath_under h.isPath rfl (by decide)
      have hsize : (".").utf8ByteSize = 1 := rfl
      rw [List.length_cons] at hroom
      omega
    refine ⟨links, place, hnames.step (by decide) (by decide) hpath ?_ fun followLast rest _ => ?_,
      hitem, hlists⟩
    · exact (follow_here true [] hitem (.inr rfl)).trans (follow_nil true)
    · exact follow_here followLast rest hitem (.inr rfl)
  plain := h.plain
  descends part hpart := h.descends part (List.mem_cons_of_mem _ hpart)
  room := by
    have hroom := h.room
    have hlead : leadSize (under path ".") ≤ leadSize path + (".").utf8ByteSize + 1 :=
      leadSize_under_le path rfl
    have hsize : (".").utf8ByteSize = 1 := rfl
    rw [List.length_cons] at hroom
    omega

theorem Stands.isTaken_iff (h : Stands fs parts path item) (hslash : '/' ∉ name.toList)
    (hdot : ¬ (name = "" ∨ name = ".")) (hup : name ≠ "..") :
    fs.isTaken (under path name) = true ↔ ∃ child, item.entries.lookup name = some child := by
  obtain ⟨links, place, hnames, hitem, -⟩ := h.names
  have hbelow := hnames.below false name (Path.isAbsolute_of_not_mem hslash) (hdot ∘ .inl)
  rw [Path.parts_of_not_mem hslash] at hbelow
  unfold isTaken
  constructor
  · intro htaken
    split at htaken
    case h_2 => cases htaken
    case h_1 reached hreach =>
      rw [hbelow (isPath_of_reach hreach)] at hreach
      obtain ⟨entries, hfolder⟩ := folder_of_follow (List.cons_ne_nil name []) hreach
      obtain rfl : item = .folder entries := by
        rw [hitem, Option.some.injEq] at hfolder
        exact hfolder
      cases hchild : entries.lookup name with
      | some child => exact ⟨child, hchild⟩
      | none => exact absurd hreach (follow_free false [] hfolder hdot hup hchild reached)
  · rintro ⟨child, hchild⟩
    obtain ⟨entries, rfl⟩ := isFolder_iff.1 (isFolder_of_lookup hchild)
    have hplain : ∀ target, child ≠ .link target := (h.plain.of_lookup hchild).ne_link
    rw [hbelow (h.isPath_of_lookup hchild), follow_plain false [] hitem hdot hup hchild hplain,
      follow_nil false]

/-- Each entry that is tried is a child of the item; the dots are not tried. -/
theorem Stands.inside_eq (h : Stands fs parts path item) {part : Part}
    (hparts : parts = part :: rest) (hwild : ∀ name, part ≠ .literal name) (needsFolder : Bool)
    (expand : List Part → Path → Bool) :
    inside fs needsFolder expand parts path = item.entries.any fun e =>
      visit needsFolder expand parts (under path e.1) e.1
        (isFolderEntry fs (under path e.1) e.2) := by
  have hempty : item.isFolder = false → item.entries = [] := by
    intro hitem
    cases item with
    | folder entries => cases hitem
    | file content => rfl
    | link target => rfl
  have hclimbs := (h.descends part (hparts ▸ List.mem_cons_self)).stays
  have hdots : (part.startsWithDot && [".", ".."].any fun name =>
      matchHere needsFolder expand parts (path.join name) name true) = false := by
    rw [Part.climbs, Bool.or_eq_false_iff] at hclimbs
    cases hdot : part.startsWithDot with
    | false => rfl
    | true =>
      have hany := hclimbs.2
      rw [hdot, Bool.true_and, List.any_eq_false] at hany
      rw [Bool.true_and, List.any_eq_false, hparts]
      intro name hname
      simp [matchHere, hany name hname]
  subst hparts
  unfold inside
  split
  case h_1 => contradiction
  case h_2 name rest' heq => exact absurd (List.cons.inj heq).1 (hwild name)
  case h_3 part' rest' _ heq =>
    obtain ⟨rfl, rfl⟩ := List.cons.inj heq
    rw [h.folder?_eq, hdots]
    cases hitem : item.isFolder with
    | true => exact Bool.or_false _
    | false => rw [hempty hitem]; rfl

end Stands

section Exact

variable {fs : FileSystem} {needsFolder : Bool} {steps : Nat}
  {expand : List Part → Path → Bool} {parts rest : List Part} {path : Path} {item child : Item}
  {name : String}

/-- From wherever a search stands, it finds something in so many steps if the parts lead to it. -/
def Exact (fs : FileSystem) (needsFolder : Bool) (steps : Nat)
    (expand : List Part → Path → Bool) : Prop :=
  ∀ parts path item, parts ≠ [] → Stands fs parts path item → parts.length + item.height ≤ steps →
    (expand parts path = true ↔ Meets needsFolder parts item)

theorem Exact.proceed_iff (h : Exact fs needsFolder steps expand)
    (hstands : Stands fs rest path item) (hsteps : rest.length + item.height ≤ steps) :
    proceed needsFolder expand rest path item.isFolder = true ↔ Meets needsFolder rest item := by
  cases rest with
  | nil => exact meets_nil_iff.symm
  | cons part rest => exact h (part :: rest) path item (List.cons_ne_nil part rest) hstands hsteps

theorem Exact.matchHere_iff (h : Exact fs needsFolder steps expand) {part : Part}
    (hstands : Stands fs rest path child) (hsteps : rest.length + child.height ≤ steps) :
    matchHere needsFolder expand (part :: rest) path name child.isFolder = true ↔
      part.matchName name = true ∧ Meets needsFolder rest child := by
  rw [matchHere, Bool.and_eq_true, h.proceed_iff hstands hsteps]

theorem Exact.inside_dot (h : Exact fs needsFolder steps expand)
    (hstands : Stands fs (.literal "." :: rest) path item)
    (hsteps : rest.length + item.height ≤ steps) :
    inside fs needsFolder expand (.literal "." :: rest) path = true ↔
      Meets needsFolder (.literal "." :: rest) item := by
  rw [meets_dot_iff hstands.plain]
  simp only [inside, true_or, if_true, Bool.and_eq_true, hstands.isFolder_eq]
  apply and_congr_right
  intro hfolder
  have hhere := hstands.here hfolder
  rw [hhere.isFolder_eq, h.proceed_iff hhere hsteps]

theorem Exact.inside_literal (h : Exact fs needsFolder steps expand)
    (hstands : Stands fs (.literal name :: rest) path item) (hdot : name ≠ ".")
    (hsteps : rest.length + item.height ≤ steps) :
    inside fs needsFolder expand (.literal name :: rest) path = true ↔
      Meets needsFolder (.literal name :: rest) item := by
  have hdescends := hstands.descends _ List.mem_cons_self
  obtain ⟨hne, hslash⟩ := hdescends.named name rfl
  have hup : name ≠ ".." := by
    rintro rfl
    cases hdescends.stays
  have hnext : ∀ child, item.entries.lookup name = some child →
      (proceed needsFolder expand rest (under path name) (fs.isFolder (under path name)) = true ↔
        Meets needsFolder rest child) := by
    intro child hchild
    have hinto := (hstands.of_sublist (List.sublist_cons_self _ rest)).into hchild
    have hheight := height_lt hchild
    rw [hinto.isFolder_eq, h.proceed_iff hinto (by omega)]
  have hnodots : ¬ (name = "." ∨ name = "..") := not_or.2 ⟨hdot, hup⟩
  rw [meets_literal_iff hdot]
  simp only [inside, hnodots, if_false, Bool.and_eq_true,
    hstands.isTaken_iff hslash (not_or.2 ⟨hne, hdot⟩) hup]
  constructor
  · rintro ⟨⟨child, hchild⟩, hrest⟩
    exact ⟨child, hchild, (hnext child hchild).1 hrest⟩
  · rintro ⟨child, hchild, hrest⟩
    exact ⟨⟨child, hchild⟩, (hnext child hchild).2 hrest⟩

/-- No entry of a tree without links has to be followed. -/
theorem isFolderEntry_eq (hplain : child.IsPlain) :
    isFolderEntry fs path child = child.isFolder := by
  cases child with
  | folder entries => rfl
  | file content => rfl
  | link target => exact absurd rfl (hplain.ne_link target)

theorem Exact.inside_wild (h : Exact fs needsFolder steps expand) {tokens : List Token}
    (hstands : Stands fs (.wild tokens :: rest) path item)
    (hsteps : rest.length + item.height ≤ steps) :
    inside fs needsFolder expand (.wild tokens :: rest) path = true ↔
      Meets needsFolder (.wild tokens :: rest) item := by
  rw [hstands.inside_eq rfl (by simp), hstands.plain.any_entries_iff, meets_cons_iff rfl (by simp)]
  apply exists₂_congr
  intro name child
  apply and_congr_right
  intro hchild
  have hheight := height_lt hchild
  have hinto := (hstands.of_sublist (List.sublist_cons_self _ rest)).into hchild
  rw [isFolderEntry_eq (hstands.plain.of_lookup hchild)]
  exact h.matchHere_iff hinto (by omega)

/-- What follows two asterisks may be matched by an entry itself. -/
theorem Exact.matchHere_dropWhile_iff (h : Exact fs needsFolder steps expand)
    (hstands : Stands fs rest path child) (hsteps : rest.length + child.height ≤ steps) :
    matchHere needsFolder expand (rest.dropWhile Part.isDeep) path name child.isFolder = true ↔
      ∃ part more, rest.dropWhile Part.isDeep = part :: more ∧ part.matchName name = true ∧
        Meets needsFolder more child := by
  cases hdrop : rest.dropWhile Part.isDeep with
  | nil => simp [matchHere]
  | cons part more =>
    have hmore : more.Sublist rest :=
      (List.sublist_cons_self part more).trans (hdrop ▸ List.dropWhile_sublist Part.isDeep)
    have hlength := hmore.length_le
    rw [h.matchHere_iff (hstands.of_sublist hmore) (by omega)]
    constructor
    · rintro ⟨hname, hrest⟩
      exact ⟨part, more, rfl, hname, hrest⟩
    · rintro ⟨_, _, heq, hname, hrest⟩
      obtain ⟨rfl, rfl⟩ := List.cons.inj heq
      exact ⟨hname, hrest⟩

theorem Exact.inside_deep (h : Exact fs needsFolder steps expand)
    (hstands : Stands fs (.deep :: rest) path item) (hsteps : rest.length + item.height ≤ steps) :
    inside fs needsFolder expand (.deep :: rest) path = true ↔
      Meets needsFolder (.deep :: rest) item := by
  rw [hstands.inside_eq rfl (by simp), hstands.plain.any_entries_iff, meets_deep_iff]
  apply exists₂_congr
  intro name child
  apply and_congr_right
  intro hchild
  have hheight := height_lt hchild
  have hinto := hstands.into hchild
  have hrest := hinto.of_sublist (List.sublist_cons_self _ rest)
  have hless : (Part.deep :: rest.dropWhile Part.isDeep).Sublist (.deep :: rest) :=
    (List.dropWhile_sublist Part.isDeep).cons_cons .deep
  have hlength : _ ≤ rest.length + 1 := hless.length_le
  have hdown : (child.isFolder && expand (.deep :: rest.dropWhile Part.isDeep) (under path name)) =
      true ↔ Meets needsFolder (.deep :: rest) child := by
    rw [Bool.and_eq_true, h _ _ child (List.cons_ne_nil _ _) (hinto.of_sublist hless) (by omega),
      meets_deep_dropWhile_iff]
    exact and_iff_right_of_imp isFolder_of_meets_deep
  rw [isFolderEntry_eq (hstands.plain.of_lookup hchild)]
  unfold visit
  rw [Bool.or_eq_true, Bool.or_eq_true, h.matchHere_dropWhile_iff hrest (by omega), hdown,
    or_assoc, Bool.and_eq_true, List.isEmpty_iff]

theorem Exact.inside (h : Exact fs needsFolder steps expand) :
    Exact fs needsFolder (steps + 1) (inside fs needsFolder expand) := by
  intro parts path item hne hstands hsteps
  obtain ⟨part, rest, rfl⟩ := List.exists_cons_of_ne_nil hne
  rw [List.length_cons] at hsteps
  have hless : rest.length + item.height ≤ steps := by omega
  cases part with
  | literal name =>
    by_cases hdot : name = "."
    · subst hdot
      exact h.inside_dot hstands hless
    · exact h.inside_literal hstands hdot hless
  | wild tokens => exact h.inside_wild hstands hless
  | deep => exact h.inside_deep hstands hless

/-- A search finds something exactly if its parts lead to something. -/
theorem search_exact (fs : FileSystem) (needsFolder : Bool) (steps : Nat) :
    Exact fs needsFolder steps (search fs needsFolder steps) := by
  induction steps with
  | zero =>
    intro parts path item hne _ hsteps
    have hlength := List.length_pos_iff.2 hne
    omega
  | succ steps ih => exact ih.inside

end Exact

end Glob

end ReleaseGate.Files
