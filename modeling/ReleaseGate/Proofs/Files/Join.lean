import ReleaseGate.Proofs.Files.Parts
import ReleaseGate.Proofs.Files.Reach

/-!
# Paths under one root

All names that are put under a root are followed from one place, where the root leads. If one of
them leads to an item, that place is a folder.
-/
namespace ReleaseGate.Files

namespace Path

/-- The parts of the folder that a name is put under: a slash at the end adds none. -/
def folderParts (root : Path) : List String :=
  if root.parts.getLast? = some "" then root.parts.dropLast else root.parts

/-- Names are put behind a front that ends in a slash, and its parts are those of the folder. -/
theorem exists_front {root : Path} (hroot : root.isEmpty = false) :
    ∃ front, (∀ p, isAbsolute p = false → (root.join p).toList = front ++ '/' :: p.toList) ∧
      isAbsolute root = ((front ++ ['/']).head? == some '/') ∧
      root.folderParts = ((splitSlashes front).map String.ofList).drop
        (if isAbsolute root then 1 else 0) := by
  have hdrop : ∀ l : List String, (if isAbsolute root then l.drop 1 else l) =
      l.drop (if isAbsolute root then 1 else 0) := by
    intro l
    split
    · rfl
    · rfl
  by_cases hlast : root.toList.getLast? = some '/'
  · obtain ⟨front, hfront⟩ := List.getLast?_eq_some_iff.1 hlast
    refine ⟨front, fun p hp => ?_, ?_, ?_⟩
    · simp [join, hp, hroot, String.toList_append, hfront]
    · rw [isAbsolute, hfront]
    · have hparts : root.parts = ((splitSlashes front).map String.ofList).drop
          (if isAbsolute root then 1 else 0) ++ [""] := by
        have hle : (if isAbsolute root then 1 else 0) ≤
            ((splitSlashes front).map String.ofList).length := by
          have hpos := List.length_pos_iff.2 (splitSlashes_ne_nil front)
          rw [List.length_map]
          split
          · exact hpos
          · exact Nat.zero_le _
        rw [parts, hdrop, hfront, splitSlashes_append, List.map_append,
          List.drop_append_of_le_length hle]
        rfl
      rw [folderParts, hparts, List.getLast?_concat, if_pos rfl, List.dropLast_concat]
  · refine ⟨root.toList, fun p hp => ?_, ?_, ?_⟩
    · simp [join, hp, hroot, hlast, String.toList_append]
    · rw [isAbsolute]
      cases hchars : root.toList with
      | nil => simp [String.toList_eq_nil_iff.1 hchars] at hroot
      | cons c chars => rfl
    · have hne : root.parts.getLast? ≠ some "" := by
        intro hempty
        have hall : ((splitSlashes root.toList).map String.ofList).getLast? = some "" := by
          rw [parts, hdrop, List.getLast?_drop] at hempty
          by_cases hle : ((splitSlashes root.toList).map String.ofList).length ≤
              if isAbsolute root then 1 else 0
          · rw [if_pos hle] at hempty
            cases hempty
          · rwa [if_neg hle] at hempty
        rw [List.getLast?_map, Option.map_eq_some_iff] at hall
        obtain ⟨part, hpart, hnil⟩ := hall
        obtain rfl : part = [] := by simpa using congrArg String.toList hnil
        rcases getLast?_splitSlashes_eq_iff.1 hpart with hchars | hslash
        · simp [String.toList_eq_nil_iff.1 hchars] at hroot
        · exact hlast hslash
      rw [folderParts, if_neg hne, parts, hdrop]

theorem parts_join {root p : Path} (hroot : root.isEmpty = false) (hp : isAbsolute p = false) :
    (root.join p).parts = root.folderParts ++ p.parts ∧
      isAbsolute (root.join p) = isAbsolute root := by
  obtain ⟨front, hjoin, habsolute, hfolder⟩ := exists_front hroot
  have hsame : isAbsolute (root.join p) = isAbsolute root := by
    rw [habsolute, isAbsolute, hjoin p hp]
    cases front with
    | nil => rfl
    | cons c front => rfl
  refine ⟨?_, hsame⟩
  have hne : (splitSlashes front).map String.ofList ≠ [] := by
    simpa using splitSlashes_ne_nil front
  obtain ⟨first, rest, hfirst⟩ := List.exists_cons_of_ne_nil hne
  have hpparts : p.parts = (splitSlashes p.toList).map String.ofList := by
    simp [parts, hp]
  rw [parts, hsame, hjoin p hp, splitSlashes_append, List.map_append, hfolder, hfirst, ← hpparts]
  cases isAbsolute root with
  | true => rfl
  | false => rfl

theorem isEmpty_join {root p : Path} (hp : p.isEmpty = false) : (root.join p).isEmpty = false := by
  have hne : p ≠ "" := by
    rintro rfl
    simp at hp
  unfold join
  split
  · exact hp
  split
  · simp [hne]
  · simp [hne]

end Path

namespace FileSystem

theorem isPath_iff {p : Path} :
    isPath p = true ↔ p.utf8ByteSize ≤ pathLimit ∧ '\x00' ∉ p.toList := by
  simp [isPath]

/-- A shorter name without null characters may stand wherever another one does. -/
theorem isPath_join {root p q : Path} (hp : p.isAbsolute = false) (hq : q.isAbsolute = false)
    (hsize : q.utf8ByteSize ≤ p.utf8ByteSize) (hnull : '\x00' ∉ q.toList)
    (h : isPath (root.join p) = true) : isPath (root.join q) = true := by
  rw [isPath_iff] at h ⊢
  unfold Path.join at h ⊢
  simp only [hp, hq, Bool.false_or] at h ⊢
  split
  case isTrue hroot =>
    rw [if_pos hroot] at h
    exact ⟨by omega, hnull⟩
  case isFalse hroot =>
    rw [if_neg hroot] at h
    split
    case isTrue hlast =>
      rw [if_pos hlast] at h
      simp only [String.utf8ByteSize_append, String.toList_append, List.mem_append, not_or] at h ⊢
      exact ⟨by omega, h.2.1, hnull⟩
    case isFalse hlast =>
      rw [if_neg hlast] at h
      simp only [String.utf8ByteSize_append, String.toList_append, List.mem_append, not_or] at h ⊢
      exact ⟨by omega, h.2.1, hnull⟩

/-- A way to follow parts: it either fails whatever the parts are, or follows them from some place.
-/
def FollowsFrom (root : Item) (way : Bool → List String → Reach) : Prop :=
  (∃ failed, (failed = .missing ∨ failed = .blocked) ∧
    ∀ followLast rest, rest ≠ [] → way followLast rest = failed) ∨
  ∃ links place, ∀ followLast rest, rest ≠ [] →
    way followLast rest = follow root followLast links place rest

theorem FollowsFrom.blocked {root : Item} {way : Bool → List String → Reach}
    (h : ∀ followLast rest, rest ≠ [] → way followLast rest = .blocked) : FollowsFrom root way :=
  .inl ⟨.blocked, .inr rfl, h⟩

theorem FollowsFrom.congr {root : Item} {way other : Bool → List String → Reach}
    (h : FollowsFrom root other)
    (heq : ∀ followLast rest, rest ≠ [] → way followLast rest = other followLast rest) :
    FollowsFrom root way := by
  rcases h with ⟨failed, hfailed, hway⟩ | ⟨links, place, hway⟩
  · exact .inl ⟨failed, hfailed, fun followLast rest hrest =>
      (heq followLast rest hrest).trans (hway followLast rest hrest)⟩
  · exact .inr ⟨links, place, fun followLast rest hrest =>
      (heq followLast rest hrest).trans (hway followLast rest hrest)⟩

theorem steps_append (root : Item) (viaLink : Bool → Place → List String → Reach) (links : Nat)
    (hfollow : ∀ followLast place parts,
      follow root followLast links place parts =
        steps root followLast (viaLink followLast) parts place)
    (hvia : ∀ place base, FollowsFrom root fun followLast rest =>
      viaLink followLast place (base ++ rest)) (base : List String) (place : Place) :
    FollowsFrom root fun followLast rest =>
      steps root followLast (viaLink followLast) (base ++ rest) place := by
  induction base generalizing place with
  | nil => exact .inr ⟨links, place, fun followLast rest _ => (hfollow followLast place rest).symm⟩
  | cons part base ih =>
    cases partCase root place part with
    | stuck hplace =>
      exact .blocked fun followLast rest _ => steps_stuck followLast _ (base ++ rest) hplace
    | here hplace hdot =>
      exact (ih place).congr fun followLast rest _ =>
        steps_here followLast _ (base ++ rest) hplace hdot
    | up hplace hup =>
      subst hup
      exact (ih place.dropLast).congr fun followLast rest _ =>
        steps_up followLast _ (base ++ rest) hplace
    | free hplace hdot hup hfree =>
      refine .inl ⟨if nameLimit < part.utf8ByteSize then .blocked else .missing, ?_, ?_⟩
      · split
        · exact .inr rfl
        · exact .inl rfl
      · intro followLast rest hrest
        apply (steps_free followLast _ (base ++ rest) hplace hdot hup hfree).trans
        simp [hrest]
    | @link _ target hplace hdot hup hlink =>
      apply (hvia (startOf target place) (Path.parts target ++ base)).congr
      intro followLast rest hrest
      apply (steps_link followLast _ (base ++ rest) hplace hdot hup hlink).trans
      simp [hrest]
    | plain hplace hdot hup hchild hplain =>
      apply (ih (place ++ [part])).congr
      intro followLast rest _
      exact steps_plain followLast _ (base ++ rest) hplace hdot hup hchild hplain

/-- Where parts lead that are followed by others: either they fail whatever comes next, or the
others are followed from a place of their own. -/
theorem follow_append (root : Item) (links : Nat) (base : List String) (place : Place) :
    FollowsFrom root fun followLast rest => follow root followLast links place (base ++ rest) := by
  induction links generalizing base place with
  | zero =>
    refine steps_append root (fun _ _ _ => .blocked) 0 (fun _ _ _ => rfl) (fun _ _ => ?_) base place
    exact .blocked fun _ _ _ => rfl
  | succ links ih =>
    exact steps_append root (fun followLast => follow root followLast links) (links + 1)
      (fun _ _ _ => rfl) (fun place base => ih base place) base place

theorem folder_of_steps {root : Item} {followLast : Bool} {viaLink : Place → List String → Reach}
    {parts : List String} {place reached : Place} (hne : parts ≠ [])
    (h : steps root followLast viaLink parts place = .found reached) :
    ∃ entries, root.at? place = some (.folder entries) := by
  obtain ⟨part, parts, rfl⟩ := List.exists_cons_of_ne_nil hne
  rw [steps] at h
  split at h
  case h_1 entries hplace => exact ⟨entries, hplace⟩
  case h_2 => simp at h

theorem folder_of_follow {root : Item} {followLast : Bool} {links : Nat} {parts : List String}
    {place reached : Place} (hne : parts ≠ [])
    (h : follow root followLast links place parts = .found reached) :
    ∃ entries, root.at? place = some (.folder entries) := by
  cases links with
  | zero => exact folder_of_steps hne h
  | succ links => exact folder_of_steps hne h

/-- Parts that lead to an item come to it through a folder, from where whatever is behind the first
of them is followed. -/
theorem exists_way {root : Item} {links : Nat} {place reached : Place} {base rest : List String}
    (hrest : rest ≠ []) (h : follow root true links place (base ++ rest) = .found reached) :
    ∃ more folder entries, root.at? folder = some (.folder entries) ∧
      ∀ followLast rest, rest ≠ [] →
        follow root followLast links place (base ++ rest) =
          follow root followLast more folder rest := by
  rcases follow_append root links base place with ⟨failed, hfailed, hway⟩ | ⟨more, folder, hway⟩
  · have hfail : .found reached = failed := h.symm.trans (hway true rest hrest)
    rcases hfailed with rfl | rfl
    · cases hfail
    · cases hfail
  · obtain ⟨entries, hfolder⟩ := folder_of_follow hrest ((hway true rest hrest).symm.trans h)
    exact ⟨more, folder, entries, hfolder, hway⟩

end FileSystem

end ReleaseGate.Files
