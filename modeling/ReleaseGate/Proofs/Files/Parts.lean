import Mathlib.Algebra.GroupWithZero.Nat
import Mathlib.Data.List.Basic
import ReleaseGate.Files.Path

/-!
# Parts of path names

The slashes of a name divide all its other characters among the parts.
-/
namespace ReleaseGate.Files.Path

theorem splitSlashes_ne_nil (s : List Char) : splitSlashes s ≠ [] := by
  cases s with
  | nil => simp [splitSlashes]
  | cons c rest =>
    rw [splitSlashes]
    split
    · simp
    · split <;> simp

/-- A character other than a slash is put before the first part. -/
theorem splitSlashes_cons {c : Char} {s part : List Char} {parts : List (List Char)} (hc : c ≠ '/')
    (h : splitSlashes s = part :: parts) : splitSlashes (c :: s) = (c :: part) :: parts := by
  rw [splitSlashes, if_neg hc, h]

theorem splitSlashes_slash (s : List Char) : splitSlashes ('/' :: s) = [] :: splitSlashes s := by
  rw [splitSlashes, if_pos rfl]

theorem splitSlashes_append (a b : List Char) :
    splitSlashes (a ++ '/' :: b) = splitSlashes a ++ splitSlashes b := by
  induction a with
  | nil => exact splitSlashes_slash b
  | cons c a ih =>
    by_cases hc : c = '/'
    · subst hc
      rw [List.cons_append, splitSlashes_slash, splitSlashes_slash, ih, List.cons_append]
    · obtain ⟨part, parts, hparts⟩ := List.exists_cons_of_ne_nil (splitSlashes_ne_nil a)
      rw [hparts, List.cons_append] at ih
      rw [List.cons_append, splitSlashes_cons hc ih, splitSlashes_cons hc hparts, List.cons_append]

theorem exists_mem_splitSlashes_iff {s : List Char} {c : Char} :
    (∃ part ∈ splitSlashes s, c ∈ part) ↔ c ∈ s ∧ c ≠ '/' := by
  induction s with
  | nil => simp [splitSlashes]
  | cons d s ih =>
    by_cases hd : d = '/'
    · subst hd
      rw [splitSlashes_slash, List.exists_mem_cons_iff, ih, List.mem_cons, or_iff_right
        List.not_mem_nil]
      constructor
      · rintro ⟨hmem, hc⟩
        exact ⟨.inr hmem, hc⟩
      · rintro ⟨hd | hmem, hc⟩
        · exact absurd hd hc
        · exact ⟨hmem, hc⟩
    · obtain ⟨part, parts, hparts⟩ := List.exists_cons_of_ne_nil (splitSlashes_ne_nil s)
      rw [hparts, List.exists_mem_cons_iff] at ih
      rw [splitSlashes_cons hd hparts, List.exists_mem_cons_iff, List.mem_cons, List.mem_cons,
        or_assoc, ih]
      constructor
      · rintro (rfl | ⟨hmem, hc⟩)
        · exact ⟨.inl rfl, hd⟩
        · exact ⟨.inr hmem, hc⟩
      · rintro ⟨rfl | hmem, hc⟩
        · exact .inl rfl
        · exact .inr ⟨hmem, hc⟩

theorem not_mem_of_mem_splitSlashes {s part : List Char} (h : part ∈ splitSlashes s) :
    '/' ∉ part := by
  intro hslash
  exact (exists_mem_splitSlashes_iff.1 ⟨part, h, hslash⟩).2 rfl

theorem splitSlashes_of_not_mem {s : List Char} (h : '/' ∉ s) : splitSlashes s = [s] := by
  induction s with
  | nil => rfl
  | cons c s ih =>
    rw [List.mem_cons, not_or] at h
    exact splitSlashes_cons (Ne.symm h.1) (ih h.2)

theorem eq_nil_of_splitSlashes {s : List Char} (h : splitSlashes s = [[]]) : s = [] := by
  cases s with
  | nil => rfl
  | cons c s =>
    obtain ⟨part, parts, hparts⟩ := List.exists_cons_of_ne_nil (splitSlashes_ne_nil s)
    by_cases hc : c = '/'
    · subst hc
      rw [splitSlashes_slash, hparts] at h
      cases h
    · rw [splitSlashes_cons hc hparts] at h
      cases h

/-- The last part is empty just where a slash ends the text or there is no text. -/
theorem getLast?_splitSlashes_eq_iff {s : List Char} :
    (splitSlashes s).getLast? = some [] ↔ s = [] ∨ s.getLast? = some '/' := by
  induction s with
  | nil => simp [splitSlashes]
  | cons c s ih =>
    obtain ⟨part, parts, hparts⟩ := List.exists_cons_of_ne_nil (splitSlashes_ne_nil s)
    rw [hparts] at ih
    by_cases hc : c = '/'
    · subst hc
      rw [splitSlashes_slash, hparts, List.getLast?_cons_cons, ih]
      cases s with
      | nil => simp
      | cons d s => simp
    · rw [splitSlashes_cons hc hparts]
      cases parts with
      | nil =>
        cases s with
        | nil => simp [hc]
        | cons d s =>
          have hpart : part ≠ [] := by
            rintro rfl
            cases eq_nil_of_splitSlashes hparts
          simpa [hpart] using ih
      | cons second rest =>
        have hs : s ≠ [] := by
          rintro rfl
          cases hparts
        obtain ⟨d, s, rfl⟩ := List.exists_cons_of_ne_nil hs
        simpa using ih

theorem utf8ByteSize_ofList_cons (c : Char) (s : List Char) :
    (String.ofList (c :: s)).utf8ByteSize = c.utf8Size + (String.ofList s).utf8ByteSize := by
  simp [String.ofList_cons]

/-- The characters of the parts, with one slash after each, are those of the text with a slash. -/
theorem sum_utf8ByteSize_splitSlashes (s : List Char) :
    ((splitSlashes s).map fun part => (String.ofList part).utf8ByteSize + 1).sum =
      (String.ofList s).utf8ByteSize + 1 := by
  induction s with
  | nil => rfl
  | cons c s ih =>
    by_cases hc : c = '/'
    · subst hc
      have hslash : ('/').utf8Size = 1 := rfl
      have hnil : (String.ofList []).utf8ByteSize = 0 := rfl
      rw [splitSlashes_slash, List.map_cons, List.sum_cons, ih, utf8ByteSize_ofList_cons,
        hslash, hnil]
      omega
    · obtain ⟨part, parts, hparts⟩ := List.exists_cons_of_ne_nil (splitSlashes_ne_nil s)
      rw [hparts, List.map_cons, List.sum_cons] at ih
      rw [splitSlashes_cons hc hparts, List.map_cons, List.sum_cons,
        utf8ByteSize_ofList_cons, utf8ByteSize_ofList_cons]
      omega

theorem isAbsolute_iff {p : Path} : isAbsolute p = true ↔ ∃ rest, p.toList = '/' :: rest := by
  rw [isAbsolute, beq_iff_eq, List.head?_eq_some_iff]

/-- The parts are those of the text behind a leading slash. -/
theorem parts_eq_map (p : Path) : p.parts =
    (splitSlashes (if isAbsolute p then p.toList.drop 1 else p.toList)).map String.ofList := by
  unfold parts
  split
  case isTrue habsolute =>
    obtain ⟨rest, hrest⟩ := isAbsolute_iff.1 habsolute
    rw [hrest, splitSlashes_slash]
    rfl
  case isFalse => rfl

theorem parts_ne_nil (p : Path) : p.parts ≠ [] := by
  rw [parts_eq_map, Ne, List.map_eq_nil_iff]
  exact splitSlashes_ne_nil _

theorem exists_mem_parts_iff {p : Path} {c : Char} :
    (∃ part ∈ p.parts, c ∈ part.toList) ↔ c ∈ p.toList ∧ c ≠ '/' := by
  have hsplit : (∃ part ∈ p.parts, c ∈ part.toList) ↔
      c ∈ (if isAbsolute p then p.toList.drop 1 else p.toList) ∧ c ≠ '/' := by
    rw [← exists_mem_splitSlashes_iff, parts_eq_map]
    simp
  rw [hsplit]
  apply and_congr_left
  intro hc
  split
  case isTrue habsolute =>
    obtain ⟨rest, hrest⟩ := isAbsolute_iff.1 habsolute
    simp [hrest, hc]
  case isFalse => rfl

theorem slash_not_mem {p part : Path} (hpart : part ∈ p.parts) : '/' ∉ part.toList := by
  intro hslash
  exact (exists_mem_parts_iff.1 ⟨part, hpart, hslash⟩).2 rfl

/-- The parts take no more room than the name, with one slash after each. -/
theorem sum_utf8ByteSize_parts (p : Path) :
    (p.parts.map fun part => part.utf8ByteSize + 1).sum + (if isAbsolute p then 1 else 0) =
      p.utf8ByteSize + 1 := by
  have hall := sum_utf8ByteSize_splitSlashes
    (if isAbsolute p then p.toList.drop 1 else p.toList)
  rw [parts_eq_map, List.map_map]
  split
  case isTrue habsolute =>
    obtain ⟨rest, hrest⟩ := isAbsolute_iff.1 habsolute
    have hp : p.utf8ByteSize = (String.ofList rest).utf8ByteSize + 1 := by
      rw [← String.ofList_toList (s := p), hrest]
      exact utf8ByteSize_ofList_cons '/' rest |>.trans (Nat.add_comm 1 _)
    rw [if_pos habsolute, hrest, List.drop_succ_cons, List.drop_zero] at hall
    rw [hrest, List.drop_succ_cons, List.drop_zero, hp]
    exact congrArg (· + 1) hall
  case isFalse habsolute =>
    rw [if_neg habsolute, String.ofList_toList] at hall
    exact hall

end ReleaseGate.Files.Path
