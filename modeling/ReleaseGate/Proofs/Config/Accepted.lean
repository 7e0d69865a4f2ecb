import ReleaseGate.Config.Load
import ReleaseGate.Proofs.Files.Reach

/-!
# Configurations that can be loaded

Every configuration that is loaded names at least one suite, no blank one, and none twice; the
defaults do so too.
-/
namespace ReleaseGate.Config

open Files

theorem suiteDefect?_eq_none_iff {seen names : List String} :
    suiteDefect? seen names = none ↔
      (∀ name ∈ names, Text.isBlank name.toList = false ∧ name ∉ seen) ∧ names.Nodup := by
  induction names generalizing seen with
  | nil => simp [suiteDefect?]
  | cons name names ih =>
    rw [suiteDefect?]
    by_cases hb : Text.isBlank name.toList
    · simp [hb]
    · by_cases hs : name ∈ seen
      · simp [hb, hs]
      · rw [if_neg hb, if_neg (by simpa using hs), ih, List.forall_mem_cons, List.nodup_cons]
        simp only [List.mem_cons, not_or]
        constructor
        · rintro ⟨h, hn⟩
          exact ⟨⟨⟨Bool.eq_false_iff.2 hb, hs⟩, fun x hx => ⟨(h x hx).1, (h x hx).2.2⟩⟩,
            fun hx => (h name hx).2.1 rfl, hn⟩
        · rintro ⟨⟨-, h⟩, hx, hn⟩
          exact ⟨fun x hm => ⟨(h x hm).1, fun he => hx (he ▸ hm), (h x hm).2⟩, hn⟩

theorem defect?_eq_none_iff {c : Config} :
    c.defect? = none ↔
      c.expected ≠ [] ∧ (∀ name ∈ c.expected, Text.isBlank name.toList = false) ∧
        c.expected.Nodup := by
  unfold defect?
  by_cases h : c.expected = []
  · simp [h]
  · simp [h, suiteDefect?_eq_none_iff]

theorem defect?_default : ({} : Config).defect? = none := by decide +kernel

theorem defect?_of_loadFile {path : Path} {content : List UInt8} {c : Config}
    (h : loadFile path content = .ok c) : c.defect? = none := by
  unfold loadFile at h
  cases hd : Text.Utf8.decode? content with
  | none => simp [hd] at h
  | some text =>
    cases hr : read? text with
    | none => simp [hd, hr] at h
    | some found =>
      cases hf : found.defect? with
      | some defect => simp [hd, hr, hf] at h
      | none =>
        simp only [hd, hr, hf, Except.ok.injEq] at h
        exact h ▸ hf

/-- The file that the configuration is looked for in. -/
def pathOf (root : Path) (explicit : Option Path) : Path :=
  explicit.getD (root.join fileName)

theorem load_eq_ok_iff {fs : FileSystem} {root : Path} {explicit : Option Path} {c : Config} :
    load fs root explicit = .ok c ↔
      (∃ content, fs.content? (pathOf root explicit) = some content ∧
        loadFile (pathOf root explicit) content = .ok c) ∨
        explicit = none ∧ fs.isFile (root.join fileName) = false ∧ c = {} := by
  cases explicit with
  | none =>
    cases hcontent : fs.content? (root.join fileName) with
    | none =>
      cases hfile : fs.isFile (root.join fileName) with
      | true => simp [load, pathOf, hcontent, hfile]
      | false => simp [load, pathOf, hcontent, hfile, @eq_comm _ c]
    | some content =>
      simp [load, pathOf, hcontent, FileSystem.isFile_of_content? hcontent]
  | some path =>
    cases hcontent : fs.content? path with
    | none => simp [load, pathOf, hcontent]
    | some content => simp [load, pathOf, hcontent]

/-- Whatever is loaded has no defect. -/
theorem defect?_of_load {fs : FileSystem} {root : Path} {explicit : Option Path} {c : Config}
    (h : load fs root explicit = .ok c) : c.defect? = none := by
  rcases load_eq_ok_iff.1 h with ⟨content, -, hfile⟩ | ⟨-, -, rfl⟩
  · exact defect?_of_loadFile hfile
  · exact defect?_default

end ReleaseGate.Config
