import ReleaseGate.Proofs.Files.Named

/-!
# Patterns and their parts

A name without wildcards, read as a pattern, stands for itself. The parts of a pattern that is put
under a root are those of the root and those of the pattern.
-/
namespace ReleaseGate.Files

namespace Path

theorem folderParts_subset (p : Path) : p.folderParts ⊆ p.parts := by
  intro part hpart
  rcases parts_eq_folderParts p with h | h
  · rwa [h]
  · rw [h]
    exact List.mem_append_left _ hpart

theorem getLast?_parts_join {root p : Path} (hroot : root.isEmpty = false)
    (hp : isAbsolute p = false) : (root.join p).parts.getLast? = p.parts.getLast? := by
  rw [(parts_join hroot hp).1, List.getLast?_append_of_ne_nil _ (parts_ne_nil p)]

theorem folderParts_join {root p : Path} (hroot : root.isEmpty = false)
    (hp : isAbsolute p = false) :
    (root.join p).folderParts = root.folderParts ++ p.folderParts := by
  have hlast := getLast?_parts_join hroot hp
  have hjoin := (parts_join hroot hp).1
  by_cases hslash : p.parts.getLast? = some ""
  · have hfolder : p.folderParts = p.parts.dropLast := if_pos hslash
    rw [hfolder, folderParts, hlast, if_pos hslash, hjoin,
      List.dropLast_append_of_ne_nil (parts_ne_nil p)]
  · have hfolder : p.folderParts = p.parts := if_neg hslash
    rw [hfolder, folderParts, hlast, if_neg hslash, hjoin]

end Path

namespace Glob

/-- A character that makes a part stand for more than one name. -/
def isWild (c : Char) : Bool :=
  c == '*' || c == '?' || c == '['

theorem tokens_of_not_wild {s : List Char} (h : ∀ c ∈ s, isWild c = false) :
    tokens none s = some (s.map .only) := by
  induction s with
  | nil => rfl
  | cons c s ih =>
    obtain ⟨hc, hs⟩ := List.forall_mem_cons.1 h
    simp only [isWild, Bool.or_eq_false_iff, beq_eq_false_iff_ne, ne_eq] at hc
    rw [tokens, ih hs]
    · rfl
    all_goals simp_all

theorem literal?_cons_eq_some_iff {t : Token} {ts : List Token} {name : List Char} :
    literal? (t :: ts) = some name ↔
      ∃ c rest, t = .only c ∧ literal? ts = some rest ∧ c :: rest = name := by
  cases t with
  | only c => simp [literal?, Option.map_eq_some_iff]
  | one => simp [literal?]
  | many => simp [literal?]
  | among ranges => simp [literal?]
  | except ranges => simp [literal?]

theorem literal?_map_only (s : List Char) : literal? (s.map .only) = some s := by
  induction s with
  | nil => rfl
  | cons c s ih => exact literal?_cons_eq_some_iff.2 ⟨c, s, rfl, ih, rfl⟩

theorem part?_of_not_wild {s : List Char} (h : ∀ c ∈ s, isWild c = false) :
    part? s = some (.literal (String.ofList s)) := by
  have hdeep : s ≠ ['*', '*'] := by
    rintro rfl
    cases h '*' List.mem_cons_self
  rw [part?, if_neg hdeep, tokens_of_not_wild h, Option.map_some, literal?_map_only]

/-- Only a part without wildcards stands for one name, and this name is its own. -/
theorem eq_of_literal? {state : OpenSet} {s name : List Char} {ts : List Token}
    (h : tokens state s = some ts) (hname : literal? ts = some name) : state = none ∧ name = s := by
  induction state, s using tokens.induct generalizing ts name with
  | case1 =>
    rw [tokens, Option.some.injEq] at h
    subst h
    exact ⟨rfl, (Option.some.inj hname).symm⟩
  | case2 => cases h
  | case3 => cases h
  | case4 rest hrest ih =>
    rw [tokens] at h
    · obtain ⟨ts, -, rfl⟩ := Option.map_eq_some_iff.1 h
      cases hname
    · exact hrest
  | case5 rest ih =>
    obtain ⟨ts, -, rfl⟩ := Option.map_eq_some_iff.1 h
    cases hname
  | case6 rest ih => cases (ih h hname).1
  | case7 rest hrest ih =>
    rw [tokens] at h
    · cases (ih h hname).1
    · exact hrest
  | case8 c rest h1 h2 h3 h4 h5 ih =>
    rw [tokens] at h
    · obtain ⟨ts, hts, rfl⟩ := Option.map_eq_some_iff.1 h
      obtain ⟨_, more, hc, hmore, rfl⟩ := literal?_cons_eq_some_iff.1 hname
      rw [← Token.only.inj hc, (ih hts hmore).2]
      exact ⟨rfl, rfl⟩
    all_goals assumption
  | case9 excludes set c rest hclose ih =>
    rw [tokens, if_pos hclose] at h
    obtain ⟨ts, -, rfl⟩ := Option.map_eq_some_iff.1 h
    obtain ⟨_, _, honly, -⟩ := literal?_cons_eq_some_iff.1 hname
    split at honly
    · cases honly
    · cases honly
  | case10 excludes set c rest hopen ih =>
    rw [tokens, if_neg hopen] at h
    cases (ih h hname).1

theorem eq_of_part? {s : List Char} {name : String} (h : part? s = some (.literal name)) :
    name = String.ofList s := by
  unfold part? at h
  split at h
  · cases h
  · rw [Option.map_eq_some_iff] at h
    obtain ⟨ts, hts, hpart⟩ := h
    split at hpart
    case h_1 chars hchars =>
      rw [← (eq_of_literal? hts hchars).2]
      exact (Part.literal.inj hpart).symm
    case h_2 => cases hpart

/-- A slash at the end of a pattern asks for a folder. -/
def asksFolder (p : Path) : Bool :=
  p.parts.getLast? == some ""

/-- The parts of a pattern, without an empty one at the end. -/
def patternParts? (p : Path) : Option (List Part) :=
  p.folderParts.mapM fun name => part? name.toList

theorem mapM_part?_of_not_wild {names : List String}
    (h : ∀ name ∈ names, ∀ c ∈ name.toList, isWild c = false) :
    (names.mapM fun name => part? name.toList) = some (names.map .literal) := by
  induction names with
  | nil => rfl
  | cons name names ih =>
    obtain ⟨hname, hnames⟩ := List.forall_mem_cons.1 h
    rw [List.mapM_cons, part?_of_not_wild hname, ih hnames, String.ofList_toList]
    rfl

theorem of_mapM_part? {names : List String} {parts : List Part}
    (h : (names.mapM fun name => part? name.toList) = some parts) :
    parts.length = names.length ∧
      ∀ part ∈ parts, ∃ name ∈ names, part? name.toList = some part := by
  induction names generalizing parts with
  | nil =>
    obtain rfl : [] = parts := Option.some.inj h
    exact ⟨rfl, fun part hpart => absurd hpart List.not_mem_nil⟩
  | cons name names ih =>
    simp only [List.mapM_cons, Option.bind_eq_bind, Option.bind_eq_some_iff] at h
    obtain ⟨part, hpart, rest, hrest, heq⟩ := h
    obtain rfl : part :: rest = parts := Option.some.inj heq
    obtain ⟨hlength, heach⟩ := ih hrest
    refine ⟨congrArg (· + 1) hlength, List.forall_mem_cons.2 ⟨?_, fun other hother => ?_⟩⟩
    · exact ⟨name, List.mem_cons_self, hpart⟩
    · obtain ⟨found, hfound, hread⟩ := heach other hother
      exact ⟨found, List.mem_cons_of_mem name hfound, hread⟩

theorem not_wild_of_mem_folderParts {p : Path} (h : p.toList.any isWild = false) :
    ∀ name ∈ p.folderParts, ∀ c ∈ name.toList, isWild c = false := by
  intro name hname c hc
  rw [List.any_eq_false] at h
  apply Bool.eq_false_iff.2
  apply h
  exact (Path.exists_mem_parts_iff.1 ⟨name, Path.folderParts_subset p hname, hc⟩).1

/-- The name of a root without wildcards stands for itself in front of a pattern. -/
theorem patternParts?_join {root p : Path} (hroot : root.isEmpty = false)
    (hplain : root.toList.any isWild = false) (hp : p.isAbsolute = false) :
    patternParts? (root.join p) =
      (patternParts? p).map (root.folderParts.map .literal ++ ·) := by
  rw [patternParts?, Path.folderParts_join hroot hp, List.mapM_append,
    mapM_part?_of_not_wild (not_wild_of_mem_folderParts hplain), ← patternParts?]
  cases patternParts? p with
  | none => rfl
  | some parts => rfl

end Glob

namespace FileSystem

open Glob

theorem matchesAny_eq (fs : FileSystem) (pattern : Path) :
    fs.matchesAny pattern = match patternParts? pattern with
      | none => false
      | some parts => search fs (asksFolder pattern) (parts.length + fs.searchLimit) parts
          (if pattern.isAbsolute then "/" else ".") := by
  have hparts := Path.parts_eq_map pattern
  unfold matchesAny
  simp only
  generalize Path.splitSlashes
    (if pattern.isAbsolute then pattern.toList.drop 1 else pattern.toList) = split at hparts ⊢
  have hasks : asksFolder pattern = (split.getLast? == some []) := by
    rw [asksFolder, hparts, List.getLast?_map]
    cases split.getLast? with
    | none => rfl
    | some part =>
      rw [Bool.eq_iff_iff]
      simp
  have hfolder : pattern.folderParts =
      (if split.getLast? == some [] then split.dropLast else split).map String.ofList := by
    rw [← hasks, Path.folderParts, asksFolder, hparts]
    simp only [beq_iff_eq]
    split
    · exact List.map_dropLast.symm
    · rfl
  have hread : (fun name : String => part? name.toList) ∘ String.ofList = part? := by
    funext part
    rw [Function.comp, String.toList_ofList]
  have hall : (if split.getLast? == some [] then split.dropLast else split).mapM part? =
      patternParts? pattern := by
    rw [patternParts?, hfolder, List.mapM_map, hread]
  cases hparts : patternParts? pattern with
  | none => simp only [hall.trans hparts]
  | some parts => simp only [hall.trans hparts, hasks]

end FileSystem

end ReleaseGate.Files
