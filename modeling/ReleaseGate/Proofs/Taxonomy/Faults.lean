import ReleaseGate.Proofs.Source.Tree
import ReleaseGate.Proofs.Taxonomy.Assemble
import ReleaseGate.Proofs.Taxonomy.Build

/-!
# Faults of builds

A build reads its inputs in a fixed order. It succeeds if nothing is amiss with any of them, and
else it fails with what is amiss at the first step where something is. What is not there, what is
there and cannot be opened, and what does not decode are three faults, and none of them is counted
as nothing.
-/
namespace ReleaseGate.Taxonomy

open Files

/-- What a build goes through. -/
inductive Step where
  | sourceRoot
  | providerMetadata
  | extensionCatalog
  | contract
  | conformance
deriving DecidableEq, Repr

def Step.all : List Step :=
  [.sourceRoot, .providerMetadata, .extensionCatalog, .contract, .conformance]

/-- Everything that is counted was there and could be opened. -/
structure Counted (fs : FileSystem) (root : Path) (s : Sources) (c : Counts) : Prop where
  loc : ∃ entries, fs.item? (s.srcRootPath root) = some (.folder entries) ∧
    Source.WithinReach fs (s.srcRootPath root) s.sourceExtension entries ∧
    c.loc = .ofFolder s.sourceExtension entries
  providers : ∃ content, fs.content? (s.providerMetadataPath root) = some content ∧
    c.providers = .ofText (Text.Utf8.decodeLossy content)
  extensions : ∃ content catalog, fs.content? (s.extensionCatalogPath root) = some content ∧
    Catalog.read content = .ok catalog ∧ c.extensions = catalog.count s.officialTier s.communityTier

/-- The contract of a code base was there and could be read. -/
def HasContract (fs : FileSystem) (root : Path) (s : Sources) (contract : Contract) : Prop :=
  ∃ content, fs.content? (s.contractPath root) = some content ∧ Contract.read content = .ok contract

/-- Nothing is read of an input, as no file is there, or as the file cannot be read. -/
inductive Lost (fs : FileSystem) (input : Input) (path : Path) : BuildError → Prop
  | missing (h : fs.isFile path = false) : Lost fs input path (.missing input path)
  | unread (hfile : fs.isFile path = true) (h : fs.content? path = none) :
      Lost fs input path (.unread path .denied)

theorem lost_of_content?_eq_none {fs : FileSystem} {path : Path} (h : fs.content? path = none)
    (input : Input) : Lost fs input path (lost fs input path) := by
  unfold lost
  cases hfile : fs.isFile path with
  | true => exact .unread hfile h
  | false => exact .missing hfile

theorem Lost.content?_eq_none {fs : FileSystem} {input : Input} {path : Path} {e : BuildError}
    (h : Lost fs input path e) : fs.content? path = none := by
  cases h with
  | missing h => exact FileSystem.content?_eq_none_of_not_isFile h
  | unread _ h => exact h

theorem Lost.reports_eq_nil {fs : FileSystem} {input : Input} {path : Path} {e : BuildError}
    (h : Lost fs input path e) : e.reports = [] := by
  cases h with
  | missing => rfl
  | unread => rfl

/-- Something is amiss at a step, and an error says what. -/
inductive IsFault (fs : FileSystem) (root : Path) (s : Sources) : Step → BuildError → Prop
  | noSourceRoot (h : fs.isFolder (s.srcRootPath root) = false) :
      IsFault fs root s .sourceRoot (.missing .sourceRoot (s.srcRootPath root))
  | outOfReach {entries : List (String × Item)} {e : BuildError}
      (hroot : fs.item? (s.srcRootPath root) = some (.folder entries))
      (h : Source.OutOfReach fs (s.srcRootPath root) s.sourceExtension entries e) :
      IsFault fs root s .sourceRoot e
  | lostMetadata {e : BuildError} (h : Lost fs .providerMetadata (s.providerMetadataPath root) e) :
      IsFault fs root s .providerMetadata e
  | lostCatalog {e : BuildError} (h : Lost fs .extensionCatalog (s.extensionCatalogPath root) e) :
      IsFault fs root s .extensionCatalog e
  | badCatalog {content : List UInt8} {fault : Json.Fault}
      (h : fs.content? (s.extensionCatalogPath root) = some content)
      (hread : Catalog.read content = .error fault) :
      IsFault fs root s .extensionCatalog (.undecodable (s.extensionCatalogPath root) fault)
  | lostContract {e : BuildError} (h : Lost fs .contract (s.contractPath root) e) :
      IsFault fs root s .contract e
  | badContract {content : List UInt8} {fault : Json.Fault}
      (h : fs.content? (s.contractPath root) = some content)
      (hread : Contract.read content = .error fault) :
      IsFault fs root s .contract (.undecodable (s.contractPath root) fault)
  | violated {c : Counts} {contract : Contract} (hcounted : Counted fs root s c)
      (hcontract : HasContract fs root s contract)
      (h : (assemble c s).violations contract ≠ []) :
      IsFault fs root s .conformance (.rejected ((assemble c s).violations contract))

/-- What is amiss at the first of some steps where anything is. -/
inductive IsFirstFault (fs : FileSystem) (root : Path) (s : Sources) :
    List Step → BuildError → Prop
  | here {step : Step} {later : List Step} {e : BuildError} (h : IsFault fs root s step e) :
      IsFirstFault fs root s (step :: later) e
  | later {step : Step} {later : List Step} {e : BuildError}
      (hnone : ∀ e', ¬ IsFault fs root s step e') (h : IsFirstFault fs root s later e) :
      IsFirstFault fs root s (step :: later) e

/-- What comes of a step: nothing is amiss, or else the error says what. -/
def Settles (fs : FileSystem) (root : Path) (s : Sources) (step : Step) :
    Except BuildError α → Prop
  | .ok _ => ∀ e, ¬ IsFault fs root s step e
  | .error e => IsFault fs root s step e

variable {fs : FileSystem} {root : Path} {s : Sources}

theorem countLines_eq_ok_iff {loc : Source.LineCount} : s.countLines fs root = .ok loc ↔
    ∃ entries, fs.item? (s.srcRootPath root) = some (.folder entries) ∧
      Source.WithinReach fs (s.srcRootPath root) s.sourceExtension entries ∧
      loc = .ofFolder s.sourceExtension entries := by
  unfold Sources.countLines
  constructor
  · intro h
    rcases Source.countFiles_cases fs (s.srcRootPath root) s.sourceExtension with
      ⟨-, hr⟩ | ⟨entries, hroot, hreach, hr⟩ | ⟨entries, e, -, -, hr⟩
    · rw [hr] at h
      cases h
    · rw [hr] at h
      exact ⟨entries, hroot, hreach, (Except.ok.inj h).symm⟩
    · rw [hr] at h
      cases h
  · rintro ⟨entries, hroot, hreach, rfl⟩
    exact Source.countFiles_of_withinReach hroot hreach

theorem countProviders_eq_ok_iff {providers : Providers.Counts} :
    s.countProviders fs root = .ok providers ↔
      ∃ content, fs.content? (s.providerMetadataPath root) = some content ∧
        providers = .ofText (Text.Utf8.decodeLossy content) := by
  unfold Sources.countProviders Providers.countFile
  cases fs.content? (s.providerMetadataPath root) with
  | none => simp
  | some content => simp [eq_comm]

theorem countExtensions_eq_ok_iff {extensions : Catalog.Counts} :
    s.countExtensions fs root = .ok extensions ↔
      ∃ content catalog, fs.content? (s.extensionCatalogPath root) = some content ∧
        Catalog.read content = .ok catalog ∧
        extensions = catalog.count s.officialTier s.communityTier := by
  unfold Sources.countExtensions Catalog.countFile
  cases fs.content? (s.extensionCatalogPath root) with
  | none => simp
  | some content =>
    cases hread : Catalog.read content with
    | error fault => simp [hread]
    | ok catalog => simp [hread, eq_comm]

theorem collect_eq_ok_iff_counted {c : Counts} :
    s.collect fs root = .ok c ↔ Counted fs root s c := by
  rw [Sources.collect_eq_ok_iff, countLines_eq_ok_iff, countProviders_eq_ok_iff,
    countExtensions_eq_ok_iff]
  constructor
  · rintro ⟨hloc, hproviders, hextensions⟩
    exact ⟨hloc, hproviders, hextensions⟩
  · rintro ⟨hloc, hproviders, hextensions⟩
    exact ⟨hloc, hproviders, hextensions⟩

/-- A computation fails at a step or goes on with what comes of it. -/
theorem Settles.isFirstFault {step : Step} {later : List Step} {r : Except BuildError α}
    {f : α → Except BuildError β} {e : BuildError} (hr : Settles fs root s step r)
    (h : (r >>= f) = .error e)
    (hlater : ∀ a, r = .ok a → f a = .error e → IsFirstFault fs root s later e) :
    IsFirstFault fs root s (step :: later) e := by
  cases r with
  | error fault =>
    obtain rfl := Except.error.inj h
    exact .here hr
  | ok a => exact .later hr (hlater a rfl h)

theorem settles_countLines : Settles fs root s .sourceRoot (s.countLines fs root) := by
  unfold Sources.countLines
  rcases Source.countFiles_cases fs (s.srcRootPath root) s.sourceExtension with
    ⟨hroot, hr⟩ | ⟨entries, hroot, hreach, hr⟩ | ⟨entries, e, hroot, hout, hr⟩
  · rw [hr]
    exact .noSourceRoot hroot
  · rw [hr]
    intro e h
    cases h with
    | noSourceRoot hnone =>
      rw [FileSystem.isFolder, hroot] at hnone
      cases hnone
    | outOfReach hroot' hout =>
      rw [hroot, Option.some.injEq, Item.folder.injEq] at hroot'
      subst hroot'
      exact hout.not_withinReach hreach
  · rw [hr]
    exact .outOfReach hroot hout

theorem settles_countProviders :
    Settles fs root s .providerMetadata (s.countProviders fs root) := by
  unfold Sources.countProviders Providers.countFile
  cases hcontent : fs.content? (s.providerMetadataPath root) with
  | none => exact .lostMetadata (lost_of_content?_eq_none hcontent _)
  | some content =>
    intro e h
    cases h with
    | lostMetadata hlost => simp [hlost.content?_eq_none] at hcontent

theorem settles_countExtensions :
    Settles fs root s .extensionCatalog (s.countExtensions fs root) := by
  unfold Sources.countExtensions Catalog.countFile
  cases hcontent : fs.content? (s.extensionCatalogPath root) with
  | none => exact .lostCatalog (lost_of_content?_eq_none hcontent _)
  | some content =>
    cases hread : Catalog.read content with
    | error fault =>
      simp only [hread]
      exact .badCatalog hcontent hread
    | ok catalog =>
      simp only [hread]
      intro e h
      cases h with
      | lostCatalog hlost => simp [hlost.content?_eq_none] at hcontent
      | badCatalog hcontent' hread' =>
        rw [hcontent, Option.some.injEq] at hcontent'
        rw [← hcontent', hread] at hread'
        cases hread'

theorem settles_load : Settles fs root s .contract (Contract.load fs (s.contractPath root)) := by
  unfold Contract.load
  cases hcontent : fs.content? (s.contractPath root) with
  | none => exact .lostContract (lost_of_content?_eq_none hcontent _)
  | some content =>
    cases hread : Contract.read content with
    | error fault =>
      simp only [hread]
      exact .badContract hcontent hread
    | ok contract =>
      simp only [hread]
      intro e h
      cases h with
      | lostContract hlost => simp [hlost.content?_eq_none] at hcontent
      | badContract hcontent' hread' =>
        rw [hcontent, Option.some.injEq] at hcontent'
        rw [← hcontent', hread] at hread'
        cases hread'

theorem isFirstFault_of_build {e : BuildError} (h : build fs root s = .error e) :
    IsFirstFault fs root s Step.all e := by
  simp only [build, Sources.collect, bind_assoc, pure_bind] at h
  refine settles_countLines.isFirstFault h fun loc hloc h => ?_
  refine settles_countProviders.isFirstFault h fun providers hproviders h => ?_
  refine settles_countExtensions.isFirstFault h fun extensions hextensions h => ?_
  refine settles_load.isFirstFault h fun loaded hload h => .here ?_
  have hcounted : Counted fs root s ⟨loc, providers, extensions⟩ :=
    collect_eq_ok_iff_counted.1 (Sources.collect_eq_ok_iff.2 ⟨hloc, hproviders, hextensions⟩)
  have hcontract : HasContract fs root s loaded.1 := ⟨loaded.2, Contract.load_eq_ok_iff.1 hload⟩
  split at h
  · cases h
  case h_2 hviolated =>
    cases h
    exact .violated hcounted hcontract hviolated

theorem IsFirstFault.exists_isFault {steps : List Step} {e : BuildError}
    (h : IsFirstFault fs root s steps e) : ∃ step ∈ steps, IsFault fs root s step e := by
  induction h with
  | here h => exact ⟨_, List.mem_cons_self, h⟩
  | later _ _ ih =>
    obtain ⟨step, hmem, h⟩ := ih
    exact ⟨step, List.mem_cons_of_mem _ hmem, h⟩

/-- Nothing but the violations of a contract is reported line by line. -/
theorem IsFault.eq_conformance {step : Step} {e : BuildError} (h : IsFault fs root s step e)
    (hreports : e.reports ≠ []) : step = .conformance := by
  cases h with
  | violated => rfl
  | outOfReach _ hout => cases hout <;> exact absurd rfl hreports
  | lostMetadata hlost | lostCatalog hlost | lostContract hlost =>
    exact absurd hlost.reports_eq_nil hreports
  | _ => exact absurd rfl hreports

/-- A taxonomy is built exactly if everything can be opened and counted and the contract can be read
and is met, and then it records what was counted. Every other build fails with what is amiss at the
first step where anything is, and the violations of a contract are those of the document. -/
theorem build_fails_closed (fs : FileSystem) (root : Path) (s : Sources) :
    (∀ t, build fs root s = .ok t ↔ ∃ c contract, Counted fs root s c ∧
      HasContract fs root s contract ∧ t = assemble c s ∧ t.violations contract = []) ∧
    (∀ c name rows, (∃ d, (assemble c s).dimensions.get? name = some d ∧
        d.metrics.map (fun m => (m.label, m.value)) = rows) ↔
      ∃ kind : DimensionKind, kind.name = name ∧ kind.rows c = rows) ∧
    (∀ e, build fs root s = .error e → IsFirstFault fs root s Step.all e) ∧
    ∀ e, IsFault fs root s .conformance e → ∃ c contract, Counted fs root s c ∧
      HasContract fs root s contract ∧ e.reports ≠ [] ∧
      e.reports = (contract.taxonomyViolations (assemble c s).toValue).map
        (·.message "counting_taxonomy") := by
  refine ⟨fun t => ?_, fun c name rows => ?_, fun e => isFirstFault_of_build, fun e h => ?_⟩
  · rw [build_eq_ok_iff]
    constructor
    · rintro ⟨c, contract, content, hcollect, hload, ht, hmet⟩
      exact ⟨c, contract, collect_eq_ok_iff_counted.1 hcollect,
        ⟨content, Contract.load_eq_ok_iff.1 hload⟩, ht, hmet⟩
    · rintro ⟨c, contract, hcounted, ⟨content, hcontract⟩, ht, hmet⟩
      exact ⟨c, contract, content, collect_eq_ok_iff_counted.2 hcounted,
        Contract.load_eq_ok_iff.2 hcontract, ht, hmet⟩
  · have hrows : ∀ kind : DimensionKind,
        (kind.dimension c s).metrics.map (fun m => (m.label, m.value)) = kind.rows c := by
      intro kind
      simp [DimensionKind.dimension, Function.comp_def]
    constructor
    · rintro ⟨d, hd, rfl⟩
      obtain ⟨kind, hname, rfl⟩ := get?_dimensions_assemble.1 hd
      exact ⟨kind, hname, (hrows kind).symm⟩
    · rintro ⟨kind, hname, rfl⟩
      exact ⟨_, get?_dimensions_assemble.2 ⟨kind, hname, rfl⟩, hrows kind⟩
  · cases h with
    | violated hcounted hcontract hviolated =>
      refine ⟨_, _, hcounted, hcontract, ?_, rfl⟩
      rwa [BuildError.reports, Ne, List.map_eq_nil_iff]

def schemaContract : String :=
  "[\"pi.qa.counting_taxonomy.v1\"]"

/-- A code base with one line, one provider and the given texts for its catalog and its contract. -/
def oneLine (catalog contract : String) : FileSystem where
  root := .folder
    [("src", .folder [("x.rs", .file (Text.Utf8.encode "f()".toList))]),
      ("p", .file (Text.Utf8.encode "canonical_id: \"a\",".toList)),
      ("c", .file (Text.Utf8.encode catalog.toList)),
      ("k", .file (Text.Utf8.encode contract.toList))]
  workingPlace := []

def oneLineSources : Sources :=
  { providerMetadata := "p", extensionCatalog := "c", contract := "k" }

/-- Catalog and contract do not decode, and metadata that is there cannot be read. -/
def unreadMetadata : FileSystem :=
  { oneLine "[" "[" with barred := [["p"]] }

/-- The builds in the list have more than one broken input, and the last one has a contract of
another schema. -/
theorem build_fails_closed_oneLine :
    (∃ c contract fs, fs = oneLine "[[[]]]" schemaContract ∧
      Counted fs "" oneLineSources c ∧ HasContract fs "" oneLineSources contract ∧
      build fs "" oneLineSources = .ok (assemble c oneLineSources) ∧
      c = ⟨⟨1, 1, 1⟩, ⟨1, 0, 0⟩, ⟨0, 0, 1⟩⟩) ∧
    (∀ fs message, (fs, message) ∈
        [(oneLine "[" "[", "invalid json at c: the document ends too early"),
          (unreadMetadata, "failed to read file: p: Permission denied (os error 13)")] →
      ∃ e, build fs "" oneLineSources = .error e ∧
        IsFirstFault fs "" oneLineSources Step.all e ∧ e.message = message) ∧
    ∃ e fs, fs = oneLine "[]" "[\"pi\"]" ∧ build fs "" oneLineSources = .error e ∧
      (∃ (c : Counts) (contract : Contract), Counted fs "" oneLineSources c ∧
        HasContract fs "" oneLineSources contract ∧
        e.reports = (contract.taxonomyViolations (assemble c oneLineSources).toValue).map
          (·.message "counting_taxonomy")) ∧
      e.reports =
        ["counting_taxonomy.schema must be \"pi\", got \"pi.qa.counting_taxonomy.v1\""] := by
  refine ⟨?_, ?_, ?_⟩
  · have hcounts : (oneLineSources.collect (oneLine "[[[]]]" schemaContract) "").toOption =
        some ⟨⟨1, 1, 1⟩, ⟨1, 0, 0⟩, ⟨0, 0, 1⟩⟩ := by
      decide +kernel
    have hpasses : (match build (oneLine "[[[]]]" schemaContract) "" oneLineSources with
        | .ok _ => true
        | .error _ => false) = true := by
      decide +kernel
    obtain ⟨hbuilt, -⟩ := build_fails_closed (oneLine "[[[]]]" schemaContract) "" oneLineSources
    cases hbuild : build (oneLine "[[[]]]" schemaContract) "" oneLineSources with
    | error e => simp [hbuild] at hpasses
    | ok t =>
      obtain ⟨c, contract, hcounted, hcontract, rfl, -⟩ := (hbuilt t).1 hbuild
      rw [collect_eq_ok_iff_counted.2 hcounted] at hcounts
      exact ⟨c, contract, _, rfl, hcounted, hcontract, hbuild, Option.some.inj hcounts⟩
  · intro fs message hmem
    have hfails : (match build fs "" oneLineSources with
        | .ok _ => none
        | .error e => some e.message) = some message := by
      simp only [List.mem_cons, Prod.mk.injEq, List.not_mem_nil, or_false] at hmem
      rcases hmem with ⟨rfl, rfl⟩ | ⟨rfl, rfl⟩
      · decide +kernel
      · decide +kernel
    obtain ⟨-, -, hfirst, -⟩ := build_fails_closed fs "" oneLineSources
    cases hbuild : build fs "" oneLineSources with
    | ok t => simp [hbuild] at hfails
    | error e => exact ⟨e, rfl, hfirst e hbuild, by simpa [hbuild] using hfails⟩
  · have hfails : (match build (oneLine "[]" "[\"pi\"]") "" oneLineSources with
        | .ok _ => []
        | .error e => e.reports) =
          ["counting_taxonomy.schema must be \"pi\", got \"pi.qa.counting_taxonomy.v1\""] := by
      decide +kernel
    obtain ⟨-, -, hfirst, hreports⟩ :=
      build_fails_closed (oneLine "[]" "[\"pi\"]") "" oneLineSources
    cases hbuild : build (oneLine "[]" "[\"pi\"]") "" oneLineSources with
    | ok t => simp [hbuild] at hfails
    | error e =>
      rw [hbuild] at hfails
      change e.reports = _ at hfails
      obtain ⟨step, -, hfault⟩ := (hfirst e hbuild).exists_isFault
      obtain rfl := hfault.eq_conformance (by simp [hfails])
      obtain ⟨c, contract, hcounted, hcontract, -, heq⟩ := hreports e hfault
      exact ⟨e, _, rfl, hbuild, ⟨c, contract, hcounted, hcontract, heq⟩, hfails⟩

/-- The path of the source root can be so long that no path is left for what is in it. -/
theorem build_slashedRoot :
    ∃ fs s contract, fs = oneLine "[]" schemaContract ∧
      s = { oneLineSources with srcRoot := Path.slashed "src" 4092 } ∧
      fs.isFolder (s.srcRootPath "") = true ∧
      (∃ content, fs.content? (s.providerMetadataPath "") = some content) ∧
      (∃ content catalog, fs.content? (s.extensionCatalogPath "") = some content ∧
        Catalog.read content = .ok catalog) ∧
      HasContract fs "" s contract ∧ (∀ c, (assemble c s).violations contract = []) ∧
      build fs "" s = .error (.unread ((s.srcRootPath "").below ["x.rs"]) .overlong) := by
  have hreach : (oneLine "[]" schemaContract).reach true "src" = .found ["src"] := rfl
  have hroot := FileSystem.item?_slashed hreach rfl 4092 (by decide)
  have hfull : (Path.slashed "src" 4092).utf8ByteSize = FileSystem.pathLimit := by
    rw [Path.utf8ByteSize_slashed]
    decide
  have hcatalog : (Catalog.read (Text.Utf8.encode "[]".toList)).isOk = true := by decide +kernel
  have hcontract : Contract.read (Text.Utf8.encode schemaContract.toList) =
      .ok { schema := "pi.qa.counting_taxonomy.v1" } := by
    decide +kernel
  generalize Path.slashed "src" 4092 = path at hroot hfull ⊢
  refine ⟨_, _, { schema := "pi.qa.counting_taxonomy.v1" }, rfl, rfl, ?_⟩
  simp only [HasContract, Sources.srcRootPath, Sources.providerMetadataPath,
    Sources.extensionCatalogPath, Sources.contractPath, Path.join_empty]
  refine ⟨?_, ⟨_, rfl⟩, ?_, ⟨_, rfl, hcontract⟩, fun c => rfl, ?_⟩
  · exact FileSystem.isFolder_eq_true_iff.2 ⟨_, hroot⟩
  · cases hread : Catalog.read (Text.Utf8.encode "[]".toList) with
    | ok catalog => exact ⟨_, catalog, rfl, hread⟩
    | error fault =>
      rw [hread] at hcatalog
      cases hcatalog
  · apply build_eq_error_of_collect
    have hname : Source.HasExtension "x.rs" "rs" := ⟨by decide, ['x'], by decide, by decide⟩
    have hlines := Source.countFiles_of_fullRoot hroot rfl hfull hname (by decide)
    rw [Sources.collect, Sources.countLines, Sources.srcRootPath, Path.join_empty]
    simp only [oneLineSources, hlines]
    rfl

end ReleaseGate.Taxonomy
