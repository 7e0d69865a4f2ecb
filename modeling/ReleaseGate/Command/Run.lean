import ReleaseGate.Command.Request
import ReleaseGate.Digest
import ReleaseGate.Evidence.Generate
import ReleaseGate.Matrix.Load

/-!
# Running requests

A request is answered by an exit code and what is printed, and by the files as they are then. Only
generating evidence changes files.
-/
namespace ReleaseGate.Command

open Files

structure Answer where
  exitCode : Nat := 0
  output : String := ""
  errors : String := ""
deriving DecidableEq, Repr

def lines (rows : List String) : String :=
  String.join (rows.map (· ++ "\n"))

def numeral (n : Nat) : String :=
  String.ofList (Json.natDigits n)

def versionText : String := "paritygate 0.1.0"

def refused (exitCode : Nat) (message : String) : Answer :=
  { exitCode, errors := lines ["error: " ++ message] }

/-- A headline and a row for each violation. -/
def failureRows (tag detail : String) (reports : List String) : List String :=
  ("[" ++ tag ++ "] FAILED (" ++ detail ++ ")") :: reports.map ("  - " ++ ·)

/-- Fields in the order of their names. -/
def sortedRecord (fields : List (String × Json.Value)) : Json.Value :=
  .record (NameMap.ofList fields).entries

def pathsList (names : List String) : Json.Value :=
  .list (names.map .text)

def resultName (accepted : Bool) : String :=
  if accepted then "accepted" else "rejected"

def evidenceTag : String := "parity-evidence"

def evidenceRows (output : Path) (e : Evidence) : List String :=
  ["Parity evidence: " ++ output,
    "  Verdict: " ++ e.verdict.name,
    "  Suites: " ++ numeral e.summary.suitesFound.toNat ++ "/" ++
      numeral e.summary.suitesExpected.toNat,
    "  Tests: " ++ numeral e.summary.totalPassed.toNat ++ "/" ++
      numeral e.summary.totalTests.toNat ++ " passed"] ++
    (if e.summary.suitesMissing.isEmpty then []
      else ["  Missing: " ++ ", ".intercalate e.summary.suitesMissing])

def buildFailureRows : Taxonomy.BuildError → List String
  | .rejected violations =>
    failureRows evidenceTag ("counting taxonomy violations=" ++ numeral violations.length)
      (Taxonomy.BuildError.rejected violations).reports
  | e => failureRows evidenceTag "taxonomy build aborted" [e.message]

/-- The exit code tells the verdict if evidence was stored. -/
def generate (fs : FileSystem) (now : Time.Instant) (log output root : Path) (config : Option Path)
    (json : Bool) : FileSystem × Answer :=
  match Config.load fs root config with
  | .error e => (fs, refused 1 e.message)
  | .ok config =>
    match Evidence.readLog? fs log with
    | none => (fs, refused 1 (Evidence.lostLogMessage fs log))
    | some text =>
      match Evidence.generate fs root config text now with
      | .error e => (fs, { exitCode := 1, output := lines (buildFailureRows e) })
      | .ok evidence =>
        match Evidence.store fs output evidence with
        | (stored, some path) => (stored, refused 1 (Evidence.unwrittenMessage path))
        | (stored, none) =>
          (stored,
            { exitCode := if evidence.verdict = .pass then 0 else 1
              output :=
                if json then lines [evidence.toValue.prettyText]
                else lines (evidenceRows output evidence) })

def taxonomyTag : String := "counting-taxonomy"

def taxonomyCheckValue (artifact contract : Path) (artifactBytes contractBytes : List UInt8)
    (schema : String) (reports : List String) : Json.Value :=
  sortedRecord
    [("schema", .nat 1), ("checkKind", .text "ci.counting_taxonomy_check.v1"),
      ("result", .text (resultName reports.isEmpty)),
      ("failureClasses",
        pathsList (if reports.isEmpty then [] else ["counting_taxonomy_violation"])),
      ("artifact", .text artifact), ("artifactDigest", .text (Digest.text artifactBytes)),
      ("contract", .text contract), ("contractDigest", .text (Digest.text contractBytes)),
      ("taxonomySchema", .text schema), ("violations", pathsList reports)]

def taxonomyCheckRows (artifact contract : Path) (reports : List String) : List String :=
  if reports.isEmpty then
    ["[" ++ taxonomyTag ++ "] OK", "  Artifact: " ++ artifact, "  Contract: " ++ contract]
  else failureRows taxonomyTag ("violations=" ++ numeral reports.length) reports

def notFound (what : String) (path : Path) : Answer :=
  { exitCode := 2
    errors := lines ["[" ++ taxonomyTag ++ "] ERROR: " ++ what ++ " not found: " ++ path] }

/-- Checks an artifact against a contract file. -/
def validateAgainst (fs : FileSystem) (artifact contract : Path) (json : Bool) : Answer :=
  if !fs.isFile artifact then notFound "artifact" artifact
  else if !fs.isFile contract then notFound "contract" contract
  else
    match fs.content? artifact with
    | none => refused 2 ("failed reading " ++ artifact ++ ": " ++ Refusal.denied.message)
    | some artifactBytes =>
      match Json.readValue artifactBytes with
      | .error fault => refused 2 (Json.undecodableMessage artifact fault)
      | .ok value =>
        match Contract.load fs contract with
        | .error e => refused 2 e.message
        | .ok (rules, contractBytes) =>
          let reports := rules.artifactReports value
          { exitCode := if reports.isEmpty then 0 else 1
            output :=
              if json then
                lines [(taxonomyCheckValue artifact contract artifactBytes contractBytes
                  rules.schema reports).prettyText]
              else lines (taxonomyCheckRows artifact contract reports) }

/-- Without a contract that is named, that of the configuration is used. -/
def validateTaxonomy (fs : FileSystem) (artifact : Path) (contract : Option Path) (root : Path)
    (config : Option Path) (json : Bool) : Answer :=
  match contract with
  | some path => validateAgainst fs artifact path json
  | none =>
    match Config.load fs root config with
    | .error e => refused 2 e.message
    | .ok config => validateAgainst fs artifact (config.sources.contractPath root) json

/-- The source of a dimension and what is counted in it, by label. -/
def countTable (fs : FileSystem) (root : Path) (s : Sources) :
    Taxonomy.DimensionKind → Except Taxonomy.BuildError (String × List (String × UInt64))
  | .loc => do
    let loc ← s.countLines fs root
    return (s.sourceGlob,
      [("files", loc.files.toUInt64), ("loc_raw_lines", loc.rawLines.toUInt64),
        ("loc_logical_lines", loc.logicalLines.toUInt64)])
  | .providers => do
    let providers ← s.countProviders fs root
    return (s.providerMetadata,
      [("provider_canonical_ids", providers.canonicalIds.toUInt64),
        ("provider_alias_ids", providers.aliasIds.toUInt64),
        ("provider_families", providers.families.toUInt64)])
  | .extensions => do
    let extensions ← s.countExtensions fs root
    return (s.extensionCatalog,
      [("extension_official_subset", extensions.official.toUInt64),
        ("extension_community_subset", extensions.community.toUInt64),
        ("extension_full_corpus", extensions.total.toUInt64)])

def countValue (dimension source : String) (counts : NameMap UInt64) : Json.Value :=
  sortedRecord
    [("schema", .nat 1), ("dimension", .text dimension), ("source", .text source),
      ("counts", .record (counts.entries.map fun e => (e.1, .word e.2)))]

def countLines (dimension source : String) (counts : NameMap UInt64) : List String :=
  ("[count] " ++ dimension ++ " (" ++ source ++ ")") ::
    counts.entries.map fun e => "  " ++ e.1 ++ ": " ++ numeral e.2.toNat

/-- Counts one dimension, as a taxonomy names it for its reproduction. -/
def count (fs : FileSystem) (dimension : Taxonomy.DimensionKind) (root : Path)
    (config : Option Path) (json : Bool) : Answer :=
  match Config.load fs root config with
  | .error e => refused 1 e.message
  | .ok config =>
    match countTable fs root config.sources dimension with
    | .error e => refused 1 e.message
    | .ok (source, rows) =>
      let counts := NameMap.ofList rows
      { output :=
          if json then lines [(countValue dimension.name source counts).prettyText]
          else lines (countLines dimension.name source counts) }

def traceabilityTag : String := "traceability-check"

def traceabilityValue (matrix : Path) (r : Matrix.Report) : Json.Value :=
  sortedRecord
    [("schema", .nat 1), ("checkKind", .text "ci.traceability_matrix_check.v1"),
      ("result", .text (resultName r.isAccepted)),
      ("failureClasses", pathsList (if r.isAccepted then [] else ["traceability_violation"])),
      ("matrix", .text matrix), ("requirements", .nat r.requirements),
      ("requiredCategories", pathsList r.requiredCategories), ("violations", pathsList r.messages)]

def traceabilityRows (r : Matrix.Report) : List String :=
  if r.isAccepted then
    ["[" ++ traceabilityTag ++ "] OK (" ++ numeral r.requirements ++
      " requirements validated with categories " ++ ", ".intercalate r.requiredCategories ++ ")"]
  else failureRows traceabilityTag ("violations=" ++ numeral r.violations.length) r.messages

def matrixFailure : Matrix.LoadError → String
  | .missing path => "traceability matrix not found: " ++ path
  | .unread path => unreadMessage path .denied
  | .undecodable path fault => Json.undecodableMessage path fault

def traceabilityCheck (fs : FileSystem) (root : Path) (matrix : Option Path) (json : Bool) :
    Answer :=
  let path := matrix.getD (root.join Matrix.defaultPath)
  match Matrix.checkFile fs root path with
  | .error e =>
    { exitCode := 1, output := lines ["[" ++ traceabilityTag ++ "] FAILED: " ++ matrixFailure e] }
  | .ok r =>
    { exitCode := if r.isAccepted then 0 else 1
      output :=
        if json then lines [(traceabilityValue path r).prettyText] else lines (traceabilityRows r) }

def run (fs : FileSystem) (now : Time.Instant) : Request → FileSystem × Answer
  | .version => (fs, { output := lines [versionText] })
  | .generate log output root config json => generate fs now log output root config json
  | .validateTaxonomy artifact contract root config json =>
    (fs, validateTaxonomy fs artifact contract root config json)
  | .count dimension root config json => (fs, count fs dimension root config json)
  | .traceabilityCheck root matrix json => (fs, traceabilityCheck fs root matrix json)

end ReleaseGate.Command
