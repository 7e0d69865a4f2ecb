import ReleaseGate.Evidence.Generate
import ReleaseGate.Proofs.Contract.Reread
import ReleaseGate.Proofs.Evidence.Readable
import ReleaseGate.Proofs.Files.Opened
import ReleaseGate.Proofs.Taxonomy.Build

/-!
# Stored evidence

Storing evidence makes folders and writes one file, which can be found where it was to be stored.
What was generated meets the contract of its code base, and still does when it is read back.
-/
namespace ReleaseGate.Evidence

open Files

/-- The folders are made first, and then the file is written in a tree that has grown. -/
theorem opens_store {fs stored : FileSystem} {path : Path} {e : Evidence}
    (h : store fs path e = (stored, none)) :
    ∃ place, FileSystem.Opens path.Above (· = place) fs stored ∧
      stored.reach true path = .found place ∧ place ∉ stored.barred ∧
      stored.root.at? place = some (.file (Text.Utf8.encode e.text.toList)) := by
  have hmake := FileSystem.opens_makeAllFolders fs path
  unfold store at h
  simp only at h
  split at h
  case h_1 => simp at h
  case h_2 made hmade =>
    rw [hmade] at hmake
    split at h
    case h_1 after hwrite =>
      obtain ⟨rfl, -⟩ := Prod.mk.inj h
      obtain ⟨place, hopens, hreach, hopen, hfile⟩ := FileSystem.opens_write? hwrite
      exact ⟨place, hmake.trans hopens, hreach, hopen, hfile⟩
    case h_2 => simp at h

/-- Evidence that cannot be stored leaves no more than folders behind. -/
theorem opens_store_of_failed {fs stored : FileSystem} {path failed : Path} {e : Evidence}
    (h : store fs path e = (stored, some failed)) :
    FileSystem.Opens path.Above Item.nowhere fs stored := by
  have hmake := FileSystem.opens_makeAllFolders fs path
  unfold store at h
  simp only at h
  split at h
  case h_1 made hmade =>
    obtain ⟨rfl, -⟩ := Prod.mk.inj h
    rwa [hmade] at hmake
  case h_2 made hmade =>
    rw [hmade] at hmake
    split at h
    case h_1 => simp at h
    case h_2 =>
      obtain ⟨rfl, -⟩ := Prod.mk.inj h
      exact hmake

theorem content?_of_store {fs stored : FileSystem} {path : Path} {e : Evidence}
    (h : store fs path e = (stored, none)) :
    stored.content? path = some (Text.Utf8.encode e.text.toList) := by
  obtain ⟨place, -, hreach, hopen, hfile⟩ := opens_store h
  exact FileSystem.content?_eq_some_iff.2 ⟨place, hreach, hopen, hfile⟩

end ReleaseGate.Evidence
