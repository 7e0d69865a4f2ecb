import ReleaseGate.Proofs.Files.Rooted

/-!
# Searches that pass over folders

Where a path leads does not depend on what can be opened. A search passes over the folders that
cannot be listed, so what it finds would be found all the more if every folder could be.
-/
namespace ReleaseGate.Files

namespace FileSystem

/-- The same items, all of which can be opened. -/
def unbarred (fs : FileSystem) : FileSystem :=
  { fs with barred := [] }

variable {fs : FileSystem} {root p : Path} {tree : Item}

theorem listsBelow_unbarred (fs : FileSystem) (root : Path) : fs.unbarred.ListsBelow root :=
  fun _ _ _ _ _ => List.not_mem_nil

theorem Rooted.unbarred (h : Rooted fs root tree) : Rooted fs.unbarred root tree :=
  ⟨h.leads, h.folder, h.plain, h.literal, h.tidy⟩

theorem folder?_unbarred {entries : List (String × Item)} (h : fs.folder? p = some entries) :
    fs.unbarred.folder? p = some entries := by
  rw [folder?_eq_some_iff] at h ⊢
  obtain ⟨place, hreach, -, hfolder⟩ := h
  exact ⟨place, hreach, List.not_mem_nil, hfolder⟩

end FileSystem

namespace Glob

section Monotone

variable {fs : FileSystem} {needsFolder : Bool} {expand expand' : List Part → Path → Bool}
  {parts : List Part} {path : Path} {name : String} {isFolder : Bool}

theorem proceed_mono (h : ∀ parts path, expand parts path = true → expand' parts path = true) :
    proceed needsFolder expand parts path isFolder = true →
      proceed needsFolder expand' parts path isFolder = true := by
  unfold proceed
  split
  · exact id
  · exact h parts path

theorem matchHere_mono (h : ∀ parts path, expand parts path = true → expand' parts path = true) :
    matchHere needsFolder expand parts path name isFolder = true →
      matchHere needsFolder expand' parts path name isFolder = true := by
  cases parts with
  | nil => exact id
  | cons part rest =>
    simp only [matchHere, Bool.and_eq_true]
    exact And.imp_right (proceed_mono h)

theorem visit_mono (h : ∀ parts path, expand parts path = true → expand' parts path = true) :
    visit needsFolder expand parts path name isFolder = true →
      visit needsFolder expand' parts path name isFolder = true := by
  unfold visit
  split
  case h_1 rest =>
    simp only [Bool.or_eq_true, Bool.and_eq_true]
    exact Or.imp (Or.imp_right (matchHere_mono h)) (And.imp_right (h _ _))
  case h_2 => exact matchHere_mono h

/-- Where the folder is listed before, it has the same entries after. -/
theorem inside_unbarred (h : ∀ parts path, expand parts path = true → expand' parts path = true)
    (hinside : inside fs needsFolder expand parts path = true) :
    inside fs.unbarred needsFolder expand' parts path = true := by
  unfold inside at hinside ⊢
  split at hinside
  case h_1 => cases hinside
  case h_2 name rest =>
    rw [Bool.and_eq_true] at hinside ⊢
    exact ⟨hinside.1, proceed_mono h hinside.2⟩
  case h_3 part rest hwild =>
    split at hinside
    case h_1 => cases hinside
    case h_2 entries hfolder =>
      simp only [FileSystem.folder?_unbarred hfolder, Bool.or_eq_true, Bool.and_eq_true,
        List.any_eq_true] at hinside ⊢
      rcases hinside with ⟨entry, hentry, hvisit⟩ | ⟨hdot, name, hname, hmatch⟩
      · exact .inl ⟨entry, hentry, visit_mono h hvisit⟩
      · exact .inr ⟨hdot, name, hname, matchHere_mono h hmatch⟩

theorem search_unbarred (steps : Nat) : ∀ parts path,
    search fs needsFolder steps parts path = true →
      search fs.unbarred needsFolder steps parts path = true := by
  induction steps with
  | zero => exact fun _ _ => id
  | succ steps ih => exact fun _ _ => inside_unbarred ih

end Monotone

end Glob

theorem FileSystem.matchesAny_unbarred {fs : FileSystem} {pattern : Path}
    (h : fs.matchesAny pattern = true) : fs.unbarred.matchesAny pattern = true := by
  rw [matchesAny_eq] at h ⊢
  cases hparts : Glob.patternParts? pattern with
  | none => simp [hparts] at h
  | some parts =>
    rw [hparts] at h
    exact Glob.search_unbarred _ parts _ h

end ReleaseGate.Files
