import ReleaseGate.Proofs.Command.Count

/-!
# What the checks tell

A check changes nothing. Its exit code tells an artifact or a matrix that was accepted from one that
was not, and for artifacts both from inputs that could not be judged. A printed document tells the
same.
-/
namespace ReleaseGate.Command

open Files Json

/-- The contract that an artifact is held to: the one that is named, or else that of the
configuration. -/
inductive HeldTo (fs : FileSystem) (root : Path) (config : Option Path) : Option Path → Path → Prop
  | named (path : Path) : HeldTo fs root config (some path) path
  | configured {c : Config} (h : Config.load fs root config = .ok c) :
    HeldTo fs root config none (c.sources.contractPath root)

/-- Artifact and contract are files that can be read, one a document and the other a contract. -/
structure Judges (fs : FileSystem) (artifact contract : Path)
    (artifactBytes contractBytes : List UInt8) (value : Value) (rules : Contract) : Prop where
  artifact : fs.content? artifact = some artifactBytes
  contract : fs.content? contract = some contractBytes
  value : readValue artifactBytes = .ok value
  rules : Contract.read contractBytes = .ok rules

/-- The reports on an artifact for which all is there that a check needs. -/
inductive Examined (fs : FileSystem) (artifact : Path) (contract : Option Path) (root : Path)
    (config : Option Path) : List String → Prop
  | of {path : Path} {artifactBytes contractBytes : List UInt8} {value : Value} {rules : Contract}
    (hpath : HeldTo fs root config contract path)
    (h : Judges fs artifact path artifactBytes contractBytes value rules) :
    Examined fs artifact contract root config (rules.artifactReports value)

/-- A printed document tells the result of a check that comes to the reports. -/
structure Tells (v : Value) (failureClass : String) (reports : List String) : Prop where
  result : v.field? "result" = some (.text (if reports = [] then "accepted" else "rejected"))
  failureClasses :
    v.field? "failureClasses" = some (.list (if reports = [] then [] else [.text failureClass]))
  violations : v.field? "violations" = some (.list (reports.map .text))

variable {fs : FileSystem} {artifact contract : Path}

theorem validateAgainst_of_judges {artifactBytes contractBytes : List UInt8} {value : Value}
    {rules : Contract} (h : Judges fs artifact contract artifactBytes contractBytes value rules)
    (json : Bool) :
    validateAgainst fs artifact contract json =
      { exitCode := if (rules.artifactReports value).isEmpty then 0 else 1
        output :=
          if json then
            lines [(taxonomyCheckValue artifact contract artifactBytes contractBytes rules.schema
              (rules.artifactReports value)).prettyText]
          else lines (taxonomyCheckRows artifact contract (rules.artifactReports value)) } := by
  have hload : Contract.load fs contract = .ok (rules, contractBytes) :=
    Contract.load_eq_ok_iff.2 ⟨h.contract, h.rules⟩
  have hartifact : fs.isFile artifact = true := FileSystem.isFile_of_content? h.artifact
  have hcontract : fs.isFile contract = true := FileSystem.isFile_of_content? h.contract
  simp [validateAgainst, hartifact, hcontract, h.artifact, h.value, hload]

/-- What cannot be judged is refused, and only errors are printed. -/
theorem validateAgainst_of_not_judges
    (h : ∀ artifactBytes contractBytes value rules,
      ¬ Judges fs artifact contract artifactBytes contractBytes value rules) (json : Bool) :
    ∃ errors, validateAgainst fs artifact contract json = { exitCode := 2, errors } := by
  unfold validateAgainst
  split
  · exact ⟨_, rfl⟩
  split
  · exact ⟨_, rfl⟩
  cases hartifact : fs.content? artifact with
  | none => exact ⟨_, rfl⟩
  | some artifactBytes =>
    cases hvalue : readValue artifactBytes with
    | error fault => exact ⟨_, by simp only [hvalue, refused]; rfl⟩
    | ok value =>
      cases hload : Contract.load fs contract with
      | error e => exact ⟨_, by simp only [hvalue, refused]; rfl⟩
      | ok loaded =>
        obtain ⟨rules, contractBytes⟩ := loaded
        obtain ⟨hcontract, hrules⟩ := Contract.load_eq_ok_iff.1 hload
        exact absurd ⟨hartifact, hcontract, hvalue, hrules⟩
          (h artifactBytes contractBytes value rules)

theorem tells_sortedRecord {fields : List (String × Value)} {failureClass : String}
    {reports : List String} (hnames : (fields.map (·.1)).Nodup)
    (hresult : fields.lookup "result" = some (.text (resultName reports.isEmpty)))
    (hclasses : fields.lookup "failureClasses" =
      some (pathsList (if reports.isEmpty then [] else [failureClass])))
    (hviolations : fields.lookup "violations" = some (pathsList reports)) :
    Tells (sortedRecord fields) failureClass reports where
  result := by
    rw [field?_sortedRecord hnames, hresult, resultName]
    cases reports <;> rfl
  failureClasses := by
    rw [field?_sortedRecord hnames, hclasses, pathsList]
    cases reports <;> rfl
  violations := by
    rw [field?_sortedRecord hnames, hviolations, pathsList]

theorem reread_texts (names : List String) :
    (Value.list (names.map .text)).reread = .list (names.map .text) := by
  rw [Value.reread, rereadItems_eq_map, List.map_map]
  exact congrArg Value.list (List.map_congr_left fun name _ => by simp [Value.reread])

/-- Reading back changes nothing that is told. -/
theorem Tells.reread {room : ℕ} {v : Value} {failureClass : String} {reports : List String}
    (hreadable : v.Readable room) (h : Tells v failureClass reports) :
    Tells v.reread failureClass reports where
  result := by rw [Value.field?_reread hreadable, h.result, Option.map_some, Value.reread]
  failureClasses := by
    have htexts : (if reports = [] then [] else [.text failureClass] : List Value) =
        (if reports = [] then [] else [failureClass]).map Value.text := by
      split <;> rfl
    rw [Value.field?_reread hreadable, h.failureClasses, htexts, Option.map_some, reread_texts]
  violations := by
    rw [Value.field?_reread hreadable, h.violations, Option.map_some, reread_texts]

/-- The printed document of an artifact that was judged, read back. -/
theorem exists_readValue_taxonomyCheckValue (artifact contract : Path)
    (artifactBytes contractBytes : List UInt8) (schema : String) (reports : List String) :
    ∃ v, readValue (Text.Utf8.encode (lines [(taxonomyCheckValue artifact contract artifactBytes
        contractBytes schema reports).prettyText]).toList) = .ok v ∧
      Tells v "counting_taxonomy_violation" reports := by
  have hreadable : (taxonomyCheckValue artifact contract artifactBytes contractBytes schema
      reports).Readable nestingLimit :=
    readable_sortedRecord (by simp)
      ⟨Value.readable_word _ 1, .text _ _, .text _ _, Value.readable_texts _ _, .text _ _,
        .text _ _, .text _ _, .text _ _, .text _ _, Value.readable_texts _ _⟩
  have htells : Tells (taxonomyCheckValue artifact contract artifactBytes contractBytes schema
      reports) "counting_taxonomy_violation" reports :=
    tells_sortedRecord (by simp) rfl rfl rfl
  exact ⟨_, readValue_lines hreadable, htells.reread hreadable⟩

variable {root : Path} {config : Option Path} {named : Option Path} {reports : List String}

/-- An artifact that was examined is told apart by whether there are reports on it. -/
theorem validateTaxonomy_of_examined (h : Examined fs artifact named root config reports)
    (json : Bool) :
    (validateTaxonomy fs artifact named root config json).exitCode =
        (if reports = [] then 0 else 1) ∧
      (json = true → ∃ v, readValue (Text.Utf8.encode
          (validateTaxonomy fs artifact named root config json).output.toList) = .ok v ∧
        Tells v "counting_taxonomy_violation" reports) := by
  obtain @⟨path, artifactBytes, contractBytes, value, rules, hpath, hjudges⟩ := h
  have hanswer : validateTaxonomy fs artifact named root config json =
      validateAgainst fs artifact path json := by
    cases hpath with
    | named => rfl
    | configured hload => simp only [validateTaxonomy, hload]
  rw [hanswer, validateAgainst_of_judges hjudges]
  constructor
  · cases rules.artifactReports value <;> rfl
  · rintro rfl
    exact exists_readValue_taxonomyCheckValue artifact path artifactBytes contractBytes
      rules.schema (rules.artifactReports value)

theorem HeldTo.unique {path path' : Path} (h : HeldTo fs root config named path)
    (h' : HeldTo fs root config named path') : path = path' := by
  cases h with
  | named => cases h' with | named => rfl
  | configured hload =>
    cases h' with
    | configured hload' =>
      rw [hload] at hload'
      cases hload'
      rfl

/-- Examining an artifact comes to one list of reports. -/
theorem Examined.unique {reports' : List String}
    (h : Examined fs artifact named root config reports)
    (h' : Examined fs artifact named root config reports') : reports = reports' := by
  obtain ⟨hpath, hartifact, hcontract, hvalue, hrules⟩ := h
  obtain ⟨hpath', hartifact', hcontract', hvalue', hrules'⟩ := h'
  cases hpath.unique hpath'
  rw [hartifact] at hartifact'
  cases hartifact'
  rw [hcontract] at hcontract'
  cases hcontract'
  rw [hvalue] at hvalue'
  cases hvalue'
  rw [hrules] at hrules'
  cases hrules'
  rfl

theorem validateTaxonomy_of_not_examined
    (h : ∀ reports, ¬ Examined fs artifact named root config reports) (json : Bool) :
    ∃ errors, validateTaxonomy fs artifact named root config json =
      { exitCode := 2, errors } := by
  cases named with
  | some path =>
    exact validateAgainst_of_not_judges
      (fun _ _ _ _ hjudges => h _ (.of (.named path) hjudges)) json
  | none =>
    cases hload : Config.load fs root config with
    | error e => exact ⟨_, by simp [validateTaxonomy, hload, refused]; rfl⟩
    | ok c =>
      simp only [validateTaxonomy, hload]
      exact validateAgainst_of_not_judges
        (fun _ _ _ _ hjudges => h _ (.of (.configured hload) hjudges)) json

theorem exitCode_validateTaxonomy_cases (json : Bool) :
    (∃ reports, Examined fs artifact named root config reports ∧
      (validateTaxonomy fs artifact named root config json).exitCode =
        if reports = [] then 0 else 1) ∨
    (∀ reports, ¬ Examined fs artifact named root config reports) ∧
      (validateTaxonomy fs artifact named root config json).exitCode = 2 := by
  by_cases hexamined : ∃ reports, Examined fs artifact named root config reports
  · obtain ⟨reports, h⟩ := hexamined
    exact .inl ⟨reports, h, (validateTaxonomy_of_examined h json).1⟩
  · have hnone := not_exists.1 hexamined
    obtain ⟨errors, hanswer⟩ := validateTaxonomy_of_not_examined hnone json
    exact .inr ⟨hnone, by rw [hanswer]⟩

theorem exitCode_validateTaxonomy_eq_zero_iff {json : Bool} :
    (validateTaxonomy fs artifact named root config json).exitCode = 0 ↔
      Examined fs artifact named root config [] := by
  constructor
  · intro hzero
    rcases exitCode_validateTaxonomy_cases json with ⟨reports, h, hexit⟩ | ⟨-, hexit⟩
    · rw [hexit] at hzero
      split at hzero
      case isTrue hnil => exact hnil ▸ h
      case isFalse => cases hzero
    · rw [hexit] at hzero
      cases hzero
  · intro h
    exact (validateTaxonomy_of_examined h json).1

theorem exitCode_validateTaxonomy_eq_one_iff {json : Bool} :
    (validateTaxonomy fs artifact named root config json).exitCode = 1 ↔
      ∃ reports, reports ≠ [] ∧ Examined fs artifact named root config reports := by
  constructor
  · intro hone
    rcases exitCode_validateTaxonomy_cases json with ⟨reports, h, hexit⟩ | ⟨-, hexit⟩
    · rw [hexit] at hone
      split at hone
      case isTrue => cases hone
      case isFalse hne => exact ⟨reports, hne, h⟩
    · rw [hexit] at hone
      cases hone
  · rintro ⟨reports, hne, h⟩
    rw [(validateTaxonomy_of_examined h json).1, if_neg hne]

theorem exitCode_validateTaxonomy_eq_two_iff {json : Bool} :
    (validateTaxonomy fs artifact named root config json).exitCode = 2 ↔
      ∀ reports, ¬ Examined fs artifact named root config reports := by
  rcases exitCode_validateTaxonomy_cases json with ⟨reports, h, hexit⟩ | ⟨hnone, hexit⟩
  · rw [hexit]
    constructor
    · intro htwo
      split at htwo <;> cases htwo
    · intro hnone
      exact absurd h (hnone reports)
  · exact iff_of_true hexit hnone

/-- Where the contract is named, nothing else is read but the two files. -/
theorem validateAgainst_congr {fs' : FileSystem}
    (hsame : ∀ p ∈ [artifact, contract],
      fs'.isFile p = fs.isFile p ∧ fs'.content? p = fs.content? p) (json : Bool) :
    validateAgainst fs' artifact contract json = validateAgainst fs artifact contract json := by
  have hartifact := hsame artifact (by simp)
  have hcontract := hsame contract (by simp)
  simp only [validateAgainst, Contract.load, Taxonomy.lost, hartifact, hcontract]

theorem not_examined_of_error {e : Config.LoadError} (h : Config.load fs root config = .error e)
    (reports : List String) : ¬ Examined fs artifact none root config reports := by
  rintro ⟨hpath, -⟩
  cases hpath with
  | configured hload =>
    rw [h] at hload
    cases hload

/-- The matrix, in its default place if it is not named, is a file that can be read and holds a
document, and the document comes to the report. -/
def Reported (fs : FileSystem) (root : Path) (matrix : Option Path) (r : Matrix.Report) : Prop :=
  ∃ content value, fs.content? (matrix.getD (root.join Matrix.defaultPath)) = some content ∧
    readValue content = .ok value ∧ r = Matrix.check (Matrix.isPresent fs root) value

variable {matrix : Option Path}

theorem checkFile_eq_ok_iff {r : Matrix.Report} :
    Matrix.checkFile fs root (matrix.getD (root.join Matrix.defaultPath)) = .ok r ↔
      Reported fs root matrix r := by
  unfold Matrix.checkFile Reported
  cases fs.content? (matrix.getD (root.join Matrix.defaultPath)) with
  | none => simp
  | some content =>
    cases hvalue : readValue content with
    | error fault => simp [hvalue]
    | ok value => simp [hvalue, eq_comm]

theorem tells_traceabilityValue (path : Path) (r : Matrix.Report) :
    Tells (traceabilityValue path r) "traceability_violation" r.messages := by
  have haccepted : r.isAccepted = r.messages.isEmpty := by
    rw [Matrix.Report.isAccepted, Matrix.Report.messages, List.isEmpty_map]
  refine tells_sortedRecord (by simp) ?_ ?_ rfl
  · rw [← haccepted]
    rfl
  · rw [← haccepted]
    rfl

/-- A matrix that was examined is told apart by whether there are violations. -/
theorem traceabilityCheck_of_reported {r : Matrix.Report} (h : Reported fs root matrix r)
    (json : Bool) :
    (traceabilityCheck fs root matrix json).exitCode = (if r.violations = [] then 0 else 1) ∧
      (json = true → ∃ v, (traceabilityCheck fs root matrix json).output =
        lines [v.prettyText] ∧ Tells v "traceability_violation" r.messages) := by
  simp only [traceabilityCheck, checkFile_eq_ok_iff.2 h]
  constructor
  · rw [Matrix.Report.isAccepted]
    cases r.violations <;> rfl
  · rintro rfl
    exact ⟨_, rfl, tells_traceabilityValue _ r⟩

theorem traceabilityCheck_of_not_reported (h : ∀ r, ¬ Reported fs root matrix r) (json : Bool) :
    (traceabilityCheck fs root matrix json).exitCode = 1 := by
  cases hcheck : Matrix.checkFile fs root (matrix.getD (root.join Matrix.defaultPath)) with
  | error e => simp only [traceabilityCheck, hcheck]
  | ok r => exact absurd (checkFile_eq_ok_iff.1 hcheck) (h r)

theorem exitCode_traceabilityCheck_cases (json : Bool) :
    (∃ r, Reported fs root matrix r ∧
      (traceabilityCheck fs root matrix json).exitCode = if r.violations = [] then 0 else 1) ∨
    (∀ r, ¬ Reported fs root matrix r) ∧
      (traceabilityCheck fs root matrix json).exitCode = 1 := by
  by_cases hreported : ∃ r, Reported fs root matrix r
  · obtain ⟨r, h⟩ := hreported
    exact .inl ⟨r, h, (traceabilityCheck_of_reported h json).1⟩
  · have hnone := not_exists.1 hreported
    exact .inr ⟨hnone, traceabilityCheck_of_not_reported hnone json⟩

theorem exitCode_traceabilityCheck_eq_zero_iff {json : Bool} :
    (traceabilityCheck fs root matrix json).exitCode = 0 ↔
      ∃ r, Reported fs root matrix r ∧ r.violations = [] := by
  constructor
  · intro hzero
    rcases exitCode_traceabilityCheck_cases json with ⟨r, h, hexit⟩ | ⟨-, hexit⟩
    · rw [hexit] at hzero
      split at hzero
      case isTrue hnil => exact ⟨r, h, hnil⟩
      case isFalse => cases hzero
    · rw [hexit] at hzero
      cases hzero
  · rintro ⟨r, h, hnil⟩
    rw [(traceabilityCheck_of_reported h json).1, if_pos hnil]

theorem exitCode_traceabilityCheck_eq_one_iff {json : Bool} :
    (traceabilityCheck fs root matrix json).exitCode = 1 ↔
      ¬ (traceabilityCheck fs root matrix json).exitCode = 0 := by
  rcases exitCode_traceabilityCheck_cases json with ⟨r, -, hexit⟩ | ⟨-, hexit⟩
  · rw [hexit]
    split <;> simp
  · rw [hexit]
    simp

/-- Neither check changes a file. An artifact that was examined exits with 0 if there is no report
on it and with 1 otherwise, and all that cannot be examined with 2; a configuration is asked for a
contract that is not named, and for nothing else. A printed document agrees with the exit code. A
matrix exits with 0 if it was examined without violations, and with 1 otherwise. -/
theorem run_checks_tell (fs : FileSystem) (now : Time.Instant) (root : Path) :
    (∀ artifact named config json, ∃ answer,
      run fs now (.validateTaxonomy artifact named root config json) = (fs, answer) ∧
      (answer.exitCode = 0 ↔ Examined fs artifact named root config []) ∧
      (answer.exitCode = 1 ↔
        ∃ reports, reports ≠ [] ∧ Examined fs artifact named root config reports) ∧
      (answer.exitCode = 2 ↔ ∀ reports, ¬ Examined fs artifact named root config reports) ∧
      (∀ e, named = none → Config.load fs root config = .error e → answer.exitCode = 2) ∧
      (∀ path fs' root' config', named = some path →
        (∀ p ∈ [artifact, path],
          FileSystem.isFile fs' p = fs.isFile p ∧ FileSystem.content? fs' p = fs.content? p) →
        run fs' now (.validateTaxonomy artifact named root' config' json) = (fs', answer)) ∧
      (json = true → answer.exitCode = 2 ∧ answer.output = "" ∨
        ∃ reports v, Examined fs artifact named root config reports ∧
          answer.exitCode = (if reports = [] then 0 else 1) ∧
          readValue (Text.Utf8.encode answer.output.toList) = .ok v ∧
          Tells v "counting_taxonomy_violation" reports)) ∧
    (∀ matrix json, ∃ answer,
      run fs now (.traceabilityCheck root matrix json) = (fs, answer) ∧
      (answer.exitCode = 0 ↔ ∃ r, Reported fs root matrix r ∧ r.violations = []) ∧
      (answer.exitCode = 1 ↔ ¬ ∃ r, Reported fs root matrix r ∧ r.violations = []) ∧
      (json = true → ∀ r, Reported fs root matrix r → ∃ v,
        answer.output = lines [v.prettyText] ∧
          Tells v "traceability_violation" r.messages)) := by
  constructor
  · intro artifact named config json
    refine ⟨validateTaxonomy fs artifact named root config json, rfl,
      exitCode_validateTaxonomy_eq_zero_iff, exitCode_validateTaxonomy_eq_one_iff,
      exitCode_validateTaxonomy_eq_two_iff, ?_, ?_, ?_⟩
    · rintro e rfl hload
      exact exitCode_validateTaxonomy_eq_two_iff.2 (not_examined_of_error hload)
    · rintro path fs' root' config' rfl hsame
      exact congrArg (Prod.mk fs') (validateAgainst_congr hsame json)
    · intro hjson
      by_cases hexamined : ∃ reports, Examined fs artifact named root config reports
      · obtain ⟨reports, h⟩ := hexamined
        obtain ⟨hexit, hprinted⟩ := validateTaxonomy_of_examined h json
        obtain ⟨v, hread, htells⟩ := hprinted hjson
        exact .inr ⟨reports, v, h, hexit, hread, htells⟩
      · obtain ⟨errors, hanswer⟩ :=
          validateTaxonomy_of_not_examined (not_exists.1 hexamined) json
        exact .inl (by rw [hanswer]; exact ⟨rfl, rfl⟩)
  · intro matrix json
    refine ⟨traceabilityCheck fs root matrix json, rfl, exitCode_traceabilityCheck_eq_zero_iff,
      ?_, fun hjson r h => (traceabilityCheck_of_reported h json).2 hjson⟩
    rw [exitCode_traceabilityCheck_eq_one_iff, exitCode_traceabilityCheck_eq_zero_iff]

/-- An artifact that has the schema of the contract and one that has another, where the
configuration does not decode. -/
def twoArtifacts : FileSystem where
  root := .folder
    [("k", .file (Text.Utf8.encode "[\"s\"]".toList)),
      ("a", .file (Text.Utf8.encode
        "\x7b\"counting_taxonomy\":\x7b\"schema\":\"s\",\"dimensions\":\x7b\x7d\x7d\x7d".toList)),
      ("b", .file (Text.Utf8.encode
        "\x7b\"counting_taxonomy\":\x7b\"schema\":0,\"dimensions\":\x7b\x7d\x7d\x7d".toList)),
      ("paritygate.toml", .file (Text.Utf8.encode "=".toList))]
  workingPlace := []

theorem examined_of_readValue {path : Path} {artifactBytes contractBytes : List UInt8}
    {rules : Contract} (hpath : HeldTo fs root config named path)
    (hartifact : fs.content? artifact = some artifactBytes)
    (hcontract : fs.content? path = some contractBytes)
    (hrules : Contract.read contractBytes = .ok rules)
    (h : (readValue artifactBytes).toOption.map rules.artifactReports = some reports) :
    Examined fs artifact named root config reports := by
  cases hvalue : readValue artifactBytes with
  | error fault => simp [hvalue, Except.toOption] at h
  | ok value =>
    obtain rfl : rules.artifactReports value = reports := by
      simpa [hvalue, Except.toOption] using h
    exact .of hpath ⟨hartifact, hcontract, hvalue, hrules⟩

theorem run_checks_tell_twoArtifacts :
    (∃ answer, run twoArtifacts {} (.validateTaxonomy "a" (some "k") "" none false) =
        (twoArtifacts, answer) ∧ answer.exitCode = 0) ∧
      (∃ answer v, run twoArtifacts {} (.validateTaxonomy "b" (some "k") "" none true) =
          (twoArtifacts, answer) ∧ answer.exitCode = 1 ∧
        readValue (Text.Utf8.encode answer.output.toList) = .ok v ∧
        Tells v "counting_taxonomy_violation"
          ["counting_taxonomy.schema must be \"s\", got 0"]) ∧
      (∃ answer, run twoArtifacts {} (.validateTaxonomy "a" none "" none true) =
        (twoArtifacts, answer) ∧ answer.exitCode = 2 ∧ answer.output = "") ∧
      ∃ answer, run twoArtifacts {} (.traceabilityCheck "" none false) =
        (twoArtifacts, answer) ∧ answer.exitCode = 1 := by
  have hcontract : twoArtifacts.content? "k" = some (Text.Utf8.encode "[\"s\"]".toList) := by
    decide +kernel
  have hrules : Contract.read (Text.Utf8.encode "[\"s\"]".toList) = .ok { schema := "s" } := by
    decide +kernel
  have hclean : Examined twoArtifacts "a" (some "k") "" none [] :=
    examined_of_readValue (.named "k") rfl hcontract hrules (by decide +kernel)
  have hflawed : Examined twoArtifacts "b" (some "k") "" none
      ["counting_taxonomy.schema must be \"s\", got 0"] :=
    examined_of_readValue (.named "k") rfl hcontract hrules (by decide +kernel)
  have hconfig : Config.load twoArtifacts "" none =
      .error (.unreadableSettings "paritygate.toml") := by
    decide +kernel
  obtain ⟨htaxonomy, hmatrix⟩ := run_checks_tell twoArtifacts {} ""
  refine ⟨?accepted, ?rejected, ?refused, ?matrix⟩
  case accepted =>
    obtain ⟨answer, hrun, hzero, -⟩ := htaxonomy "a" (some "k") none false
    exact ⟨answer, hrun, hzero.2 hclean⟩
  case rejected =>
    obtain ⟨answer, hrun, -, hone, -, -, -, hprinted⟩ := htaxonomy "b" (some "k") none true
    have hexit : answer.exitCode = 1 := hone.2 ⟨_, by simp, hflawed⟩
    rcases hprinted rfl with ⟨htwo, -⟩ | ⟨reports, v, hreports, -, hread, htells⟩
    · rw [hexit] at htwo
      cases htwo
    · rw [hreports.unique hflawed] at htells
      exact ⟨answer, v, hrun, hexit, hread, htells⟩
  case refused =>
    obtain ⟨answer, hrun, -, -, -, hbroken, -, hprinted⟩ := htaxonomy "a" none none true
    refine ⟨answer, hrun, hbroken _ rfl hconfig, ?_⟩
    rcases hprinted rfl with ⟨-, houtput⟩ | ⟨reports, -, hreports, -⟩
    · exact houtput
    · exact absurd hreports (not_examined_of_error hconfig reports)
  case matrix =>
    obtain ⟨answer, hrun, -, hone, -⟩ := hmatrix none false
    refine ⟨answer, hrun, hone.2 ?_⟩
    rintro ⟨r, ⟨content, -, hcontent, -⟩, -⟩
    have habsent : twoArtifacts.content?
        ((none : Option Path).getD (Path.join "" Matrix.defaultPath)) = none := by
      decide +kernel
    rw [habsent] at hcontent
    cases hcontent

end ReleaseGate.Command
