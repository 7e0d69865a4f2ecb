import ReleaseGate.Matrix.Load
import ReleaseGate.Proofs.Files.Unbarred
import ReleaseGate.Proofs.Json.Reread
import ReleaseGate.Proofs.Matrix.Monotone

/-!
# Matrices and the tree of the root

A check asks only for the paths that its matrix names. Where these go no way but down from the root,
the report tells of the tree that the root holds and of nothing else: it is the same wherever this
tree is, and what it accepts is in this tree.
-/
namespace ReleaseGate.Matrix

open Files Json

/-- The paths that are looked for if they are not marked: those that the entries of the required
categories name. -/
def askedPaths (matrix : Value) : List Path :=
  (requirements matrix).flatMap fun requirement =>
    (requiredCategories matrix).flatMap fun category =>
      ((filledList? requirement category).getD []).filterMap (filledText? · "path")

theorem mem_askedPaths_iff {matrix : Value} {path : Path} : path ∈ askedPaths matrix ↔
    ∃ requirement ∈ requirements matrix, ∃ category ∈ requiredCategories matrix, ∃ entries,
      filledList? requirement category = some entries ∧
        ∃ entry ∈ entries, filledText? entry "path" = some path := by
  have hgetD : ∀ (list : Option (List Value)) (entry : Value),
      entry ∈ list.getD [] ↔ ∃ entries, list = some entries ∧ entry ∈ entries := by
    intro list entry
    cases list with
    | none => simp
    | some entries => simp
  simp only [askedPaths, List.mem_flatMap, List.mem_filterMap, hgetD]
  constructor
  · rintro ⟨requirement, hrequirement, category, hcategory, entry, ⟨entries, hentries, hentry⟩,
      hpath⟩
    exact ⟨requirement, hrequirement, category, hcategory, entries, hentries, entry, hentry, hpath⟩
  · rintro ⟨requirement, hrequirement, category, hcategory, entries, hentries, entry, hentry, hpath⟩
    exact ⟨requirement, hrequirement, category, hcategory, entry, ⟨entries, hentries, hentry⟩,
      hpath⟩

/-- A check asks for nothing but the paths that its matrix names. -/
theorem check_congr {present other : String → Bool} {matrix : Value}
    (h : ∀ path ∈ askedPaths matrix, present path = other path) :
    check present matrix = check other matrix := by
  symm
  apply check_congr_of_asks
  rintro id category index path
    ⟨hcategory, rs, hrs, requirement, hrequirement, -, entries, entry, hentries, hentry, hpath, -⟩
  have hmem : entry ∈ entries := List.mem_of_getElem? hentry
  have hlist : filledList? requirement category = some entries :=
    filledList?_eq_some_iff.2 ⟨hentries, List.ne_nil_of_mem hmem⟩
  apply h
  apply mem_askedPaths_iff.2
  exact ⟨requirement, mem_requirements_iff.2 ⟨rs, hrs, hrequirement⟩, category, hcategory, entries,
    hlist, entry, hmem, filledText?_eq_some_iff.2 hpath⟩

variable {fs : FileSystem} {root path : Path} {tree : Item}

/-- An absolute path takes the place of the root. -/
theorem isPresent_of_isAbsolute (h : path.isAbsolute = true) (other : Path) :
    isPresent fs root path = isPresent fs other path := by
  rw [isPresent, isPresent, Path.join_of_isAbsolute root h, Path.join_of_isAbsolute other h]

/-- A path that goes no way but down is present just if the tree of the root covers it. -/
theorem isPresent_iff (h : fs.Rooted root tree) (hlists : fs.ListsBelow root)
    (hpath : path.IsConfined) (hroom : HasRoom root tree path) :
    isPresent fs root path = true ↔ Covers tree path := by
  unfold isPresent
  simp only
  split
  case isTrue => exact h.matchesAny_iff hlists hpath hroom
  case isFalse hpattern =>
    apply h.itemExists_iff hpath hroom
    exact Bool.eq_false_iff.2 hpattern

/-- What is present is covered by the tree of the root, whatever cannot be opened in it. -/
theorem covers_of_isPresent (h : fs.Rooted root tree) (hpath : path.IsConfined)
    (hroom : HasRoom root tree path) (hpresent : isPresent fs root path = true) :
    Covers tree path := by
  rw [← isPresent_iff h.unbarred (FileSystem.listsBelow_unbarred fs root) hpath hroom]
  unfold isPresent at hpresent ⊢
  simp only at hpresent ⊢
  split
  case isTrue hpattern =>
    rw [if_pos hpattern] at hpresent
    exact FileSystem.matchesAny_unbarred hpresent
  case isFalse hpattern => rwa [if_neg hpattern] at hpresent

/-- Whether a path that goes no way but down is present is told by the tree of the root if its
folders can be listed, and so is the report on a matrix of such paths: it is the same wherever this
tree is. -/
theorem checkFile_eq_of_sameTree {other : FileSystem} {moved : Path} (h : fs.Rooted root tree)
    (hmoved : other.Rooted moved tree) (hlists : fs.ListsBelow root)
    (hlists' : other.ListsBelow moved) (hfile : other.isFile path = fs.isFile path)
    (hcontent : other.content? path = fs.content? path)
    (hasked : ∀ content matrix, fs.content? path = some content →
      Json.readValue content = .ok matrix → ∀ asked ∈ askedPaths matrix,
        asked.IsConfined ∧ HasRoom root tree asked ∧ HasRoom moved tree asked) :
    (∀ asked : Path, asked.IsConfined → HasRoom root tree asked →
        (isPresent fs root asked = true ↔ Covers tree asked)) ∧
      checkFile other moved path = checkFile fs root path := by
  refine ⟨fun asked => isPresent_iff h hlists, ?_⟩
  unfold checkFile
  rw [hcontent, hfile]
  cases hread : fs.content? path with
  | none => rfl
  | some content =>
    cases hmatrix : Json.readValue content with
    | error fault => simp only [hmatrix]
    | ok matrix =>
      have hcheck : check (isPresent other moved) matrix = check (isPresent fs root) matrix := by
        apply check_congr
        intro asked hmem
        obtain ⟨hconfined, hroom, hroom'⟩ := hasked content matrix hread hmatrix asked hmem
        rw [Bool.eq_iff_iff, isPresent_iff hmoved hlists' hconfined hroom',
          isPresent_iff h hlists hconfined hroom]
      simp only [hmatrix, hcheck]

/-- One requirement, covered by what a path names and by what the run makes. -/
def coverageMatrix (named : Path) : Value :=
  let marked := .list [.record [("path", .text "log"), ("generated_by_ci", .bool true)]]
  .record
    [("schema_version", .text ""), ("program_issue_id", .text ""), ("program_title", .text ""),
      ("updated_at", .text ""),
      ("ci_policy", .record [("required_categories",
        .list [.text "unit_tests", .text "e2e_scripts", .text "evidence_logs"])]),
      ("requirements", .list [.record
        [("id", .text "R"), ("title", .text "T"), ("acceptance_criteria", .text "C"),
          ("unit_tests", .list [.record [("path", .text named)]]), ("e2e_scripts", marked),
          ("evidence_logs", marked)]])]

theorem readable_coverageMatrix (room : ℕ) (named : Path) :
    (coverageMatrix named).Readable (room + 5) := by
  have hmarked : (Value.list [.record [("path", .text "log"),
      ("generated_by_ci", .bool true)]]).Readable (room + 2) :=
    Value.readable_list (Value.readable_record (by simp) ⟨.text _ _, .bool _ _⟩)
  have hnamed : (Value.list [.record [("path", .text named)]]).Readable (room + 2) :=
    Value.readable_list (Value.readable_record (by simp) (.text _ _))
  have hcategories : (Value.list [.text "unit_tests", .text "e2e_scripts",
      .text "evidence_logs"]).Readable (room + 3) :=
    Value.readable_list ⟨.text _ _, .text _ _, .text _ _⟩
  apply Value.readable_record (by simp)
  refine ⟨.text _ _, .text _ _, .text _ _, .text _ _, Value.readable_record (by simp) hcategories,
    ?_⟩
  apply Value.readable_list
  exact Value.readable_record (by simp) ⟨.text _ _, .text _ _, .text _ _, hnamed, hmarked, hmarked⟩

/-- Some entries beside a matrix that names one path. -/
def besideMatrix (named : Path) (entries : List (String × Item)) : FileSystem where
  root := .folder
    (("m.json", .file (Text.Utf8.encode (pretty 0 (coverageMatrix named) ++ ['\n']))) :: entries)
  workingPlace := []

theorem content?_besideMatrix (named : Path) (entries : List (String × Item)) :
    (besideMatrix named entries).content? "m.json" =
      some (Text.Utf8.encode (pretty 0 (coverageMatrix named) ++ ['\n'])) := rfl

theorem readValue_coverageMatrix (named : Path) :
    readValue (Text.Utf8.encode (pretty 0 (coverageMatrix named) ++ ['\n'])) =
      .ok (coverageMatrix named).reread :=
  readValue_pretty (readable_coverageMatrix 122 named)

theorem checkFile_besideMatrix (named : Path) (entries : List (String × Item)) (root : Path) :
    checkFile (besideMatrix named entries) root "m.json" =
      .ok (check (isPresent (besideMatrix named entries) root) (coverageMatrix named).reread) := by
  rw [checkFile, content?_besideMatrix]
  simp only [readValue_coverageMatrix]

def sourceTree : Item :=
  .folder [("src", .folder [("x.rs", .file [])])]

theorem isPlain_sourceTree : sourceTree.IsPlain := by
  apply Item.isPlain_folder (by decide +kernel) (by decide)
  intro source hsource
  obtain rfl := List.mem_singleton.1 hsource
  apply Item.isPlain_folder (by decide +kernel) (by decide)
  intro file hfile
  obtain rfl := List.mem_singleton.1 hfile
  exact Item.isPlain_file []

theorem rooted_sourceTree (named : Path) :
    (besideMatrix named [("a", sourceTree)]).Rooted "a" sourceTree :=
  ⟨rfl, rfl, isPlain_sourceTree, by decide +kernel, by decide +kernel⟩

theorem checkFile_eq_of_sameTree_sourceTree :
    checkFile (besideMatrix "src/*.rs" [("lib", .folder [("b", sourceTree)])]) "lib/b" "m.json" =
        checkFile (besideMatrix "src/*.rs" [("a", sourceTree)]) "a" "m.json" ∧
      checkFile (besideMatrix "src/*.rs" [("a", sourceTree)]) "a" "m.json" =
        .ok ⟨1, ["unit_tests", "e2e_scripts", "evidence_logs"], []⟩ := by
  constructor
  · have hmoved : (besideMatrix "src/*.rs" [("lib", .folder [("b", sourceTree)])]).Rooted "lib/b"
        sourceTree :=
      ⟨rfl, rfl, isPlain_sourceTree, by decide +kernel, by decide +kernel⟩
    have hlists : ∀ (entries : List (String × Item)) (root : Path),
        (besideMatrix "src/*.rs" entries).ListsBelow root := fun _ _ _ _ _ _ _ => List.not_mem_nil
    refine (checkFile_eq_of_sameTree (rooted_sourceTree _) hmoved (hlists _ _) (hlists _ _) rfl rfl
      ?_).2
    intro content matrix hcontent hmatrix
    obtain rfl := Option.some.inj ((content?_besideMatrix _ _).symm.trans hcontent)
    obtain rfl := Except.ok.inj ((readValue_coverageMatrix _).symm.trans hmatrix)
    decide +kernel
  · rw [checkFile_besideMatrix]
    apply congrArg Except.ok
    decide +kernel

/-- Brackets in the name of a root are read as part of the pattern: of two roots that hold the same
tree, one is not searched. -/
theorem checkFile_bracketedRoot :
    let fs := besideMatrix "src/*.rs" [("a", sourceTree), ("[b]", sourceTree)]
    fs.item? "a" = some sourceTree ∧ fs.item? "[b]" = some sourceTree ∧
      checkFile fs "a" "m.json" =
        .ok ⟨1, ["unit_tests", "e2e_scripts", "evidence_logs"], []⟩ ∧
      checkFile fs "[b]" "m.json" =
        .ok ⟨1, ["unit_tests", "e2e_scripts", "evidence_logs"],
          [.requirement "R" (.entry "unit_tests" 0 (.absent "src/*.rs"))]⟩ := by
  intro fs
  refine ⟨rfl, rfl, ?_, ?_⟩
  · apply (checkFile_besideMatrix _ _ _).trans
    apply congrArg Except.ok
    decide +kernel
  · apply (checkFile_besideMatrix _ _ _).trans
    apply congrArg Except.ok
    decide +kernel

/-- What an unmarked entry of an accepted matrix names is in the tree of the root if the path goes
no way but down. An absolute path is accepted whatever the root is. -/
theorem exists_leads_of_isAccepted {report : Report} (h : fs.Rooted root tree)
    (hreport : checkFile fs root path = .ok report) (haccepted : report.isAccepted = true) :
    ∃ content matrix, fs.content? path = some content ∧ Json.readValue content = .ok matrix ∧
      ∀ requirement ∈ requirements matrix, ∀ category ∈ report.requiredCategories, ∀ entries,
        requirement.field? category = some (.list entries) → ∀ entry ∈ entries,
          entry.field? "generated_by_ci" ≠ some (.bool true) →
            ∃ named : Path, Tells entry "path" named ∧
              (named.IsConfined → HasRoom root tree named →
                ∃ parts place found, Glob.patternParts? named = some parts ∧
                  Glob.Leads parts tree place found ∧ tree.at? place = some found) ∧
              (named.isAbsolute = true → ∀ other : Path, isPresent fs other named = true) := by
  unfold checkFile at hreport
  split at hreport
  case h_1 => cases hreport
  case h_2 content hfile =>
    split at hreport
    case h_2 => cases hreport
    case h_1 matrix hmatrix =>
      obtain rfl := Except.ok.inj hreport
      rw [Report.isAccepted, List.isEmpty_iff] at haccepted
      obtain ⟨categories, listed, htraces⟩ := exists_traces_of_violations haccepted
      have hlisted : requirements matrix = listed := by
        rw [requirements, filledList?_eq_some_iff.2 ⟨htraces.listed, htraces.nonempty⟩]
        rfl
      refine ⟨content, matrix, hfile, hmatrix, ?_⟩
      intro requirement hrequirement category hcategory entries hentries entry hentry hunmarked
      rw [check_of_traces htraces] at hcategory
      obtain ⟨covering, hcovering, -, hall⟩ :=
        (htraces.each requirement (hlisted ▸ hrequirement)).covered category hcategory
      obtain rfl : covering = entries := by simpa [hcovering] using hentries
      obtain ⟨named, hnamed, hmarked | hpresent⟩ := (hall entry hentry).path
      · exact absurd hmarked hunmarked
      · refine ⟨named, hnamed, fun hconfined hroom => ?_, fun habsolute other => ?_⟩
        · obtain ⟨parts, hparts, place, found, hleads, -⟩ :=
            covers_of_isPresent h hconfined hroom hpresent
          exact ⟨parts, place, found, hparts, hleads, hleads.at?⟩
        · rwa [isPresent_of_isAbsolute habsolute other] at hpresent

theorem exists_leads_of_isAccepted_sourceTree :
    ∃ parts place found, Glob.patternParts? "src/*.rs" = some parts ∧
      Glob.Leads parts sourceTree place found ∧ sourceTree.at? place = some found := by
  have hcovered : ((requirements (coverageMatrix "src/*.rs").reread).map fun requirement =>
      ((filledList? requirement "unit_tests").getD []).map fun entry =>
        (filledText? entry "path", isMarkedGenerated entry)) =
      [[(some "src/*.rs", false)]] := by
    decide +kernel
  have haccepted : (check (isPresent (besideMatrix "src/*.rs" [("a", sourceTree)]) "a")
      (coverageMatrix "src/*.rs").reread) =
        ⟨1, ["unit_tests", "e2e_scripts", "evidence_logs"], []⟩ := by
    decide +kernel
  obtain ⟨content, matrix, hcontent, hmatrix, hall⟩ := exists_leads_of_isAccepted
    (rooted_sourceTree "src/*.rs") (checkFile_besideMatrix _ _ "a") (by rw [haccepted]; rfl)
  obtain rfl := Option.some.inj ((content?_besideMatrix _ _).symm.trans hcontent)
  obtain rfl := Except.ok.inj ((readValue_coverageMatrix _).symm.trans hmatrix)
  obtain ⟨requirement, hrequirement, hentries⟩ := List.map_eq_singleton_iff.1 hcovered
  obtain ⟨entry, hentry, hnamed⟩ := List.map_eq_singleton_iff.1 hentries
  rw [Prod.mk.injEq] at hnamed
  have hlist : filledList? requirement "unit_tests" = some [entry] := by
    cases hlist : filledList? requirement "unit_tests" with
    | none =>
      rw [hlist] at hentry
      cases hentry
    | some entries =>
      rw [hlist] at hentry
      exact congrArg some hentry
  have hunmarked : entry.field? "generated_by_ci" ≠ some (.bool true) := by
    intro hmarked
    rw [isMarkedGenerated_iff.2 hmarked] at hnamed
    cases hnamed.2
  rw [haccepted, hrequirement] at hall
  obtain ⟨named, htells, hleads, -⟩ := hall requirement (List.mem_singleton_self _) "unit_tests"
    List.mem_cons_self [entry] (filledList?_eq_some_iff.1 hlist).1 entry
    (List.mem_singleton_self entry) hunmarked
  obtain rfl := Option.some.inj ((filledText?_eq_some_iff.2 htells).symm.trans hnamed.1)
  exact hleads (by decide +kernel) (by decide +kernel)

/-- Two dots lead out of the root, to a file that is accepted there. -/
theorem checkFile_besideRoot :
    let fs := besideMatrix "../outside.rs" [("outside.rs", .file []), ("repo", .folder [])]
    fs.reach true "repo" = .found ["repo"] ∧
      fs.reach true (Path.join "repo" "../outside.rs") = .found ["outside.rs"] ∧
      checkFile fs "repo" "m.json" =
        .ok ⟨1, ["unit_tests", "e2e_scripts", "evidence_logs"], []⟩ := by
  intro fs
  refine ⟨by decide +kernel, by decide +kernel, ?_⟩
  apply (checkFile_besideMatrix _ _ _).trans
  apply congrArg Except.ok
  decide +kernel

end ReleaseGate.Matrix
