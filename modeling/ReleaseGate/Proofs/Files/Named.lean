import Mathlib.Data.List.Basic
import ReleaseGate.Files.Glob
import ReleaseGate.Proofs.Files.Join

/-!
# Paths that are searched

A search goes on from a path by names that are put under it. Where the path leads, the names under
it are followed from there; this is kept by each name that the search adds.
-/
namespace ReleaseGate.Files

namespace Path

theorem isAbsolute_of_not_mem {name : Path} (h : '/' ∉ name.toList) : isAbsolute name = false := by
  rw [isAbsolute, beq_eq_false_iff_ne]
  intro hhead
  exact h (List.mem_of_mem_head? hhead)

theorem parts_of_not_mem {name : Path} (h : '/' ∉ name.toList) : parts name = [name] := by
  simp [parts, isAbsolute_of_not_mem h, splitSlashes_of_not_mem h]

/-- A name that is put under a path begins where the path with its slash ends. -/
theorem join_eq_append (root : Path) {p : Path} (hp : isAbsolute p = false) :
    root.join p = root.join "" ++ p := by
  have hempty : isAbsolute "" = false := rfl
  unfold join
  rw [hp, hempty, Bool.false_or]
  split
  · rw [String.empty_append]
  · split
    · rw [String.append_empty]
    · rw [String.append_empty]

theorem append_join (a : Path) {p : Path} (hp : p.isEmpty = false) :
    (a ++ p).join "" = a ++ p.join "" := by
  have hempty : isAbsolute "" = false := rfl
  have hchars : p.toList ≠ [] := by simpa using hp
  have hlast : (a ++ p).toList.getLast? = p.toList.getLast? := by
    rw [String.toList_append, List.getLast?_append_of_ne_nil _ hchars]
  have hne : (a ++ p).isEmpty = false := by simpa using fun _ => by simpa using hp
  unfold join
  rw [hempty, hlast, hne, hp, Bool.false_or]
  simp only [Bool.false_eq_true, if_false, String.append_empty]
  split
  · rfl
  · rw [String.append_assoc]

theorem join_empty_join_empty (root : Path) : (root.join "").join "" = root.join "" := by
  cases hroot : root.isEmpty with
  | true =>
    obtain rfl : root = "" := by simpa using hroot
    rfl
  | false =>
    by_cases hlast : root.toList.getLast? = some '/'
    · have hjoin : root.join "" = root := by simp [join, hlast, hroot, isAbsolute]
      rw [hjoin, hjoin]
    · have hjoin : root.join "" = root ++ "/" := by simp [join, hlast, hroot, isAbsolute]
      rw [hjoin, append_join root rfl]
      rfl

/-- Names may be put under each other in any order. -/
theorem join_join (root : Path) {p q : Path} (hp : isAbsolute p = false)
    (hq : isAbsolute q = false) : (root.join p).join q = root.join (p.join q) := by
  cases hempty : p.isEmpty with
  | true =>
    obtain rfl : p = "" := by simpa using hempty
    rw [join_empty, join_eq_append _ hq, join_empty_join_empty, ← join_eq_append _ hq]
  | false =>
    have hpq : isAbsolute (p.join q) = false := (parts_join hempty hq).2.trans hp
    rw [join_eq_append _ hq, join_eq_append _ hp, append_join _ hempty, String.append_assoc,
      ← join_eq_append _ hq, ← join_eq_append _ hpq]

theorem parts_name_join {name q : Path} (hname : '/' ∉ name.toList) (hne : name ≠ "")
    (hq : isAbsolute q = false) : (name.join q).parts = name :: q.parts := by
  have hlast : (parts name).getLast? ≠ some "" := by simpa [parts_of_not_mem hname] using hne
  rw [(parts_join (by simpa using hne) hq).1, folderParts, if_neg hlast, parts_of_not_mem hname,
    List.singleton_append]

theorem folderParts_ne_nil {root : Path} (hroot : root.isEmpty = false)
    (hrelative : isAbsolute root = false) : root.folderParts ≠ [] := by
  obtain ⟨front, -, -, hparts⟩ := exists_front hroot
  rw [hparts, hrelative]
  simpa using splitSlashes_ne_nil front

theorem parts_eq_folderParts (root : Path) :
    root.parts = root.folderParts ∨ root.parts = root.folderParts ++ [""] := by
  rw [folderParts]
  split
  case isTrue hlast => exact .inr (List.dropLast_append_getLast? _ hlast).symm
  case isFalse => exact .inl rfl

end Path

namespace Glob

theorem isHere_eq_false_of_mem {path : Path} {part : String} (hmem : part ∈ path.parts)
    (hdot : part ≠ ".") (hempty : part ≠ "") : isHere path = false := by
  have hall : (path.parts.all fun part => part == "." || part == "") = false := by
    rw [List.all_eq_false]
    exact ⟨part, hmem, by simp [hdot, hempty]⟩
  rw [isHere, hall, Bool.and_false]

theorem mem_parts_join (path : Path) {name : Path} (hname : '/' ∉ name.toList) :
    name ∈ (path.join name).parts := by
  have hparts := Path.parts_of_not_mem hname
  cases hpath : path.isEmpty with
  | true =>
    obtain rfl : path = "" := by simpa using hpath
    rw [Path.join_empty, hparts]
    exact List.mem_singleton_self name
  | false =>
    rw [(Path.parts_join hpath (Path.isAbsolute_of_not_mem hname)).1, hparts]
    exact List.mem_append_right _ (List.mem_singleton_self name)

theorem isHere_join_dot {path : Path} (hne : path.isEmpty = false) (h : isHere path = false) :
    isHere (path.join ".") = false := by
  obtain ⟨hparts, habsolute⟩ := Path.parts_join hne (p := ".") rfl
  cases hrelative : Path.isAbsolute path with
  | true => rw [isHere, habsolute, hrelative]; rfl
  | false =>
    -- A dot more does not change which parts are dots, nor which one is first.
    rw [← h]
    obtain ⟨first, rest, hfirst⟩ :=
      List.exists_cons_of_ne_nil (Path.folderParts_ne_nil hne hrelative)
    have hdot : Path.parts "." = ["."] := by decide
    unfold isHere
    rw [habsolute, hparts, hdot, hfirst]
    rcases Path.parts_eq_folderParts path with hsame | hmore
    · simp [hsame, hfirst]
    · simp [hmore, hfirst]

theorem under_under {path name q : Path} (hname : '/' ∉ name.toList) (hdot : name ≠ ".")
    (hne : name ≠ "") (hq : q.isAbsolute = false) :
    under (under path name) q = under path (name.join q) := by
  cases hpath : isHere path with
  | true =>
    have hmem : name ∈ name.parts := by simp [Path.parts_of_not_mem hname]
    simp [under, hpath, isHere_eq_false_of_mem hmem hdot hne]
  | false =>
    simp only [under, hpath, Bool.false_eq_true, if_false,
      isHere_eq_false_of_mem (mem_parts_join path hname) hdot hne]
    exact Path.join_join path (Path.isAbsolute_of_not_mem hname) hq

/-- Under the working folder itself a dot adds nothing. -/
theorem under_under_dot {path q : Path} (hne : path ≠ "") (hq : q.isAbsolute = false) :
    under (under path ".") q =
      if isHere path then under path q else under path (Path.join "." q) := by
  have hempty : path.isEmpty = false := by simpa using hne
  cases hpath : isHere path with
  | true =>
    have hdot : isHere "." = true := by decide
    simp [under, hpath, hdot]
  | false =>
    simp only [under, hpath, Bool.false_eq_true, if_false, isHere_join_dot hempty hpath]
    exact Path.join_join path rfl hq

end Glob

namespace FileSystem

section Follow

/-! Following one part from a folder, whatever number of links may be left. -/

variable {root : Item} {links : Nat} {place : Place} {entries : List (String × Item)}
  {part : String} (followLast : Bool) (rest : List String)

theorem follow_nil : follow root followLast links place [] = .found place := by
  cases links with
  | zero => rfl
  | succ links => rfl

theorem follow_stuck (hplace : ∀ entries, root.at? place ≠ some (.folder entries)) :
    follow root followLast links place (part :: rest) = .blocked := by
  cases links with
  | zero => exact steps_stuck followLast _ rest hplace
  | succ links => exact steps_stuck followLast _ rest hplace

theorem follow_here (hplace : root.at? place = some (.folder entries))
    (hdot : part = "" ∨ part = ".") :
    follow root followLast links place (part :: rest) =
      follow root followLast links place rest := by
  cases links with
  | zero => exact steps_here followLast _ rest hplace hdot
  | succ links => exact steps_here followLast _ rest hplace hdot

theorem follow_plain {child : Item} (hplace : root.at? place = some (.folder entries))
    (hdot : ¬ (part = "" ∨ part = ".")) (hup : part ≠ "..")
    (hchild : entries.lookup part = some child) (hplain : ∀ target, child ≠ .link target) :
    follow root followLast links place (part :: rest) =
      follow root followLast links (place ++ [part]) rest := by
  cases links with
  | zero => exact steps_plain followLast _ rest hplace hdot hup hchild hplain
  | succ links => exact steps_plain followLast _ rest hplace hdot hup hchild hplain

theorem steps_free_ne_found (viaLink : Place → List String → Reach)
    (hplace : root.at? place = some (.folder entries)) (hdot : ¬ (part = "" ∨ part = "."))
    (hup : part ≠ "..") (hfree : entries.lookup part = none) (reached : Place) :
    steps root followLast viaLink (part :: rest) place ≠ .found reached := by
  rw [steps_free followLast viaLink rest hplace hdot hup hfree]
  split
  · simp
  · split
    · simp
    · simp

theorem follow_free (hplace : root.at? place = some (.folder entries))
    (hdot : ¬ (part = "" ∨ part = ".")) (hup : part ≠ "..") (hfree : entries.lookup part = none)
    (reached : Place) : follow root followLast links place (part :: rest) ≠ .found reached := by
  cases links with
  | zero => exact steps_free_ne_found followLast rest _ hplace hdot hup hfree reached
  | succ links => exact steps_free_ne_found followLast rest _ hplace hdot hup hfree reached

theorem follow_up (hplace : root.at? place = some (.folder entries)) :
    follow root followLast links place (".." :: rest) =
      follow root followLast links place.dropLast rest := by
  cases links with
  | zero => exact steps_up followLast _ rest hplace
  | succ links => exact steps_up followLast _ rest hplace

/-- A link at the end may be kept. -/
theorem follow_link_last {target : String} (hplace : root.at? place = some (.folder entries))
    (hdot : ¬ (part = "" ∨ part = ".")) (hup : part ≠ "..")
    (hlink : entries.lookup part = some (.link target)) :
    follow root false links place [part] = .found (place ++ [part]) := by
  cases links with
  | zero => exact steps_link false _ [] hplace hdot hup hlink
  | succ links => exact steps_link false _ [] hplace hdot hup hlink

end Follow

variable {root : Item} {fs : FileSystem} {path : Path} {links : Nat} {place reached : Place}

/-- A single part that leads somewhere is there itself, be it a link. -/
theorem exists_found_of_follow {part : String}
    (h : follow root true links place [part] = .found reached) :
    ∃ other, follow root false links place [part] = .found other := by
  cases partCase root place part with
  | stuck hplace =>
    rw [follow_stuck true [] hplace] at h
    cases h
  | here hplace hdot =>
    exact ⟨place, (follow_here false [] hplace hdot).trans (follow_nil false)⟩
  | up hplace hup =>
    subst hup
    exact ⟨place.dropLast, (follow_up false [] hplace).trans (follow_nil false)⟩
  | free hplace hdot hup hfree =>
    exact absurd h (follow_free true [] hplace hdot hup hfree reached)
  | link hplace hdot hup hlink => exact ⟨place ++ [part], follow_link_last hplace hdot hup hlink⟩
  | plain hplace hdot hup hchild hplain =>
    refine ⟨place ++ [part], ?_⟩
    exact (follow_plain false [] hplace hdot hup hchild hplain).trans (follow_nil false)

theorem steps_slash_iff {viaLink : Place → List String → Reach}
    (hvia : ∀ place base, viaLink place (base ++ [""]) = .found reached ↔
      viaLink place base = .found reached ∧ ∃ entries, root.at? reached = some (.folder entries))
    (parts : List String) (place : Place) :
    steps root true viaLink (parts ++ [""]) place = .found reached ↔
      steps root true viaLink parts place = .found reached ∧
        ∃ entries, root.at? reached = some (.folder entries) := by
  induction parts generalizing place with
  | nil =>
    rw [List.nil_append, steps, Reach.found.injEq]
    constructor
    · intro h
      obtain ⟨entries, hplace⟩ := folder_of_steps (List.cons_ne_nil "" []) h
      rw [steps_here true viaLink [] hplace (.inl rfl), steps, Reach.found.injEq] at h
      exact ⟨h, entries, h ▸ hplace⟩
    · rintro ⟨rfl, entries, hplace⟩
      exact steps_here true viaLink [] hplace (.inl rfl)
  | cons part parts ih =>
    rw [List.cons_append]
    cases partCase root place part with
    | stuck hplace => simp [steps_stuck true viaLink _ hplace]
    | here hplace hdot =>
      rw [steps_here true viaLink _ hplace hdot, steps_here true viaLink _ hplace hdot, ih]
    | up hplace hup =>
      subst hup
      rw [steps_up true viaLink _ hplace, steps_up true viaLink _ hplace, ih]
    | free hplace hdot hup hfree =>
      have hnone : ∀ rest, steps root true viaLink (part :: rest) place ≠ .found reached :=
        fun rest => steps_free_ne_found true rest viaLink hplace hdot hup hfree reached
      simp [hnone]
    | link hplace hdot hup hlink =>
      rw [steps_link true viaLink _ hplace hdot hup hlink,
        steps_link true viaLink _ hplace hdot hup hlink]
      simp only [Bool.not_true, Bool.and_false, Bool.false_eq_true, if_false]
      rw [← List.append_assoc, hvia]
    | plain hplace hdot hup hchild hplain =>
      rw [steps_plain true viaLink _ hplace hdot hup hchild hplain,
        steps_plain true viaLink _ hplace hdot hup hchild hplain, ih]

/-- A slash at the end asks for a folder. -/
theorem follow_slash_iff (parts : List String) :
    follow root true links place (parts ++ [""]) = .found reached ↔
      follow root true links place parts = .found reached ∧
        ∃ entries, root.at? reached = some (.folder entries) := by
  induction links generalizing place parts with
  | zero =>
    exact steps_slash_iff (fun _ _ => by simp) parts place
  | succ links ih => exact steps_slash_iff (fun place base => ih base) parts place

/-- What is behind some parts is followed from where these lead. -/
theorem exists_next {base rest : List String} (hrest : rest ≠ [])
    (h : follow root true links place (base ++ rest) = .found reached) :
    ∃ more next, follow root true links place base = .found next ∧
      ∀ followLast rest, rest ≠ [] →
        follow root followLast links place (base ++ rest) =
          follow root followLast more next rest := by
  obtain ⟨more, next, entries, hfolder, hway⟩ := exists_way hrest h
  have hslash : follow root true links place (base ++ [""]) = .found next := by
    apply (hway true [""] (List.cons_ne_nil _ _)).trans
    exact (follow_here true [] hfolder (.inl rfl)).trans (follow_nil true)
  exact ⟨more, next, ((follow_slash_iff base).1 hslash).1, hway⟩

/-- Where a path leads, and that the names under it are followed from there. -/
structure Names (fs : FileSystem) (path : Path) (links : Nat) (place : Place) : Prop where
  found : fs.reach true path = .found place
  below : ∀ followLast (q : Path), q.isAbsolute = false → q ≠ "" →
    isPath (Glob.under path q) = true →
    fs.reach followLast (Glob.under path q) = follow fs.root followLast links place q.parts

theorem Names.ne_empty (h : Names fs path links place) : path ≠ "" := by
  rintro rfl
  simpa [reach] using h.found

theorem Names.below_join (h : Names fs path links place) {name q : Path}
    (hname : '/' ∉ name.toList) (hne : name ≠ "") (hq : q.isAbsolute = false) (hqne : q ≠ "")
    (hpath : isPath (Glob.under path (name.join q)) = true) (followLast : Bool) :
    fs.reach followLast (Glob.under path (name.join q)) =
      follow fs.root followLast links place (name :: q.parts) := by
  have hrelative : Path.isAbsolute (name.join q) = false :=
    (Path.parts_join (by simpa using hne) hq).2.trans (Path.isAbsolute_of_not_mem hname)
  have hjoined : (Path.join name q).isEmpty = false := Path.isEmpty_join (by simpa using hqne)
  rw [h.below followLast _ hrelative (by simpa using hjoined) hpath,
    Path.parts_name_join hname hne hq]

/-- What a search adds to a path goes on from where it leads. -/
theorem Names.step (h : Names fs path links place) {name : Path} (hname : '/' ∉ name.toList)
    (hne : name ≠ "") (hpath : isPath (Glob.under path name) = true) {more : Nat}
    (hfound : follow fs.root true links place [name] = .found reached)
    (hfollow : ∀ followLast rest, rest ≠ [] → follow fs.root followLast links place (name :: rest) =
      follow fs.root followLast more reached rest) :
    Names fs (Glob.under path name) more reached where
  found := by
    rw [h.below true name (Path.isAbsolute_of_not_mem hname) hne hpath, Path.parts_of_not_mem hname,
      hfound]
  below followLast q hq hqne hqpath := by
    have hrest := hfollow followLast q.parts (Path.parts_ne_nil q)
    by_cases hdot : name = "."
    · subst hdot
      rw [Glob.under_under_dot h.ne_empty hq] at hqpath ⊢
      split at hqpath
      case isTrue hhere =>
        obtain ⟨entries, hplace⟩ := folder_of_follow (List.cons_ne_nil _ _) hfound
        rw [if_pos hhere, h.below followLast q hq hqne hqpath, ← hrest]
        exact (follow_here followLast q.parts hplace (.inr rfl)).symm
      case isFalse hhere =>
        rw [if_neg hhere, h.below_join hname hne hq hqne hqpath, hrest]
    · rw [Glob.under_under hname hdot hne hq] at hqpath ⊢
      rw [h.below_join hname hne hq hqne hqpath, hrest]

end FileSystem

end ReleaseGate.Files
