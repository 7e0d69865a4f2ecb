import ReleaseGate.Proofs.Files.Named

/-!
# Slashes behind paths

A slash behind a path asks for a folder. So a folder has paths of any length that paths may have,
and one of the greatest length leaves no room for what is in the folder.
-/
namespace ReleaseGate.Files

/-- A path with slashes behind it. -/
def Path.slashed (p : Path) : ℕ → Path
  | 0 => p
  | n + 1 => slashed p n ++ "/"

theorem Path.utf8ByteSize_slashed (p : Path) (n : ℕ) :
    (p.slashed n).utf8ByteSize = p.utf8ByteSize + n := by
  induction n with
  | zero => rfl
  | succ n ih =>
    have hslash : ("/" : String).utf8ByteSize = 1 := by decide
    rw [slashed, String.utf8ByteSize_append, ih, hslash, Nat.add_assoc]

theorem Path.parts_append_slash {p : Path} (hp : p ≠ "") :
    parts (p ++ "/") = parts p ++ [""] ∧ isAbsolute (p ++ "/") = isAbsolute p := by
  have hchars : (p ++ "/").toList = p.toList ++ ['/'] := by simp
  have hne : p.toList ≠ [] := by simpa using hp
  have habsolute : isAbsolute (p ++ "/") = isAbsolute p := by
    rw [isAbsolute, isAbsolute, hchars, List.head?_append_of_ne_nil _ hne]
  refine ⟨?_, habsolute⟩
  rw [parts_eq_map, parts_eq_map, habsolute, hchars]
  split
  case isTrue => rw [List.drop_append_of_le_length (List.length_pos_iff.2 hne), splitSlashes_append,
    List.map_append]; rfl
  case isFalse => rw [splitSlashes_append, List.map_append]; rfl

namespace FileSystem

variable {fs : FileSystem} {p : Path} {place : Place} {entries : List (String × Item)}

theorem reach_append_slash (h : fs.reach true p = .found place)
    (hfolder : fs.root.at? place = some (.folder entries)) (hroom : p.utf8ByteSize < pathLimit) :
    fs.reach true (p ++ "/") = .found place := by
  unfold reach at h ⊢
  split at h
  case isTrue => cases h
  case isFalse hempty =>
    split at h
    case isTrue => cases h
    case isFalse hpath =>
      obtain ⟨hparts, habsolute⟩ := Path.parts_append_slash (p := p) (by simpa using hempty)
      rw [Bool.not_eq_true', Bool.not_eq_false, isPath_iff] at hpath
      have hslashed : isPath (p ++ "/") = true := by
        have hslash : ("/" : String).utf8ByteSize = 1 := by decide
        rw [isPath_iff, String.utf8ByteSize_append, hslash, String.toList_append]
        exact ⟨hroom, by simpa using hpath.2⟩
      rw [if_neg (by simp), hslashed, hparts, startOf, habsolute]
      exact (follow_slash_iff _).2 ⟨h, entries, hfolder⟩

theorem reach_slashed (h : fs.reach true p = .found place)
    (hfolder : fs.root.at? place = some (.folder entries)) (n : ℕ)
    (hroom : p.utf8ByteSize + n ≤ pathLimit) : fs.reach true (p.slashed n) = .found place := by
  induction n with
  | zero => exact h
  | succ n ih =>
    apply reach_append_slash (ih (by omega)) hfolder
    rw [Path.utf8ByteSize_slashed]
    omega

/-- A folder is found under its path with slashes behind it. -/
theorem item?_slashed (h : fs.reach true p = .found place)
    (hfolder : fs.root.at? place = some (.folder entries)) (n : ℕ)
    (hroom : p.utf8ByteSize + n ≤ pathLimit) :
    fs.item? (p.slashed n) = some (.folder entries) :=
  item?_eq_some_iff.2 ⟨place, reach_slashed h hfolder n hroom, hfolder⟩

/-- What lies below a root can be opened if its path is not too long and nothing bars it. -/
theorem refusal?_eq_none_iff {root : Path} {below : Place} :
    fs.refusal? root below = none ↔ isPath (root.below below) = true ∧
      ∀ top, fs.reach true root = .found top → top ++ below ∉ fs.barred := by
  unfold refusal?
  cases isPath (root.below below) with
  | false => simp
  | true =>
    cases fs.reach true root with
    | found top => simp
    | vacant folder name => simp
    | missing => simp
    | blocked => simp

theorem refusal?_of_overlong {root : Path} {below : Place}
    (h : isPath (root.below below) = false) : fs.refusal? root below = some .overlong := by
  rw [refusal?, h]
  rfl

/-- No path is left for the names in a folder whose own path is as long as paths may be. -/
theorem isPath_below_eq_false {root : Path} {name : String} (hname : '/' ∉ name.toList)
    (hne : name ≠ "") (hroom : root.utf8ByteSize = pathLimit) :
    isPath (root.below [name]) = false := by
  have hroot : root.isEmpty = false := by
    rw [Bool.eq_false_iff, Ne, String.isEmpty_iff]
    rintro rfl
    cases hroom
  have hpos : 0 < name.utf8ByteSize := by
    rw [Nat.pos_iff_ne_zero, Ne, String.utf8ByteSize_eq_zero_iff]
    exact hne
  have hlong : pathLimit < (root.join name).utf8ByteSize := by
    rw [Path.join, Path.isAbsolute_of_not_mem hname, hroot, Bool.false_or, if_neg (by simp)]
    split
    · rw [String.utf8ByteSize_append]
      omega
    · rw [String.utf8ByteSize_append, String.utf8ByteSize_append]
      omega
  rw [Bool.eq_false_iff, Ne, Path.below, List.foldl_cons, List.foldl_nil, isPath_iff]
  omega

end FileSystem

end ReleaseGate.Files
