import ReleaseGate.Contract.Basic
import ReleaseGate.Contract.Violation
import ReleaseGate.Text.Blank

/-!
# Checking taxonomies against contracts

Any document value can be checked. Every violation is found, in the order of the contract's
dimensions and of the document's metrics; only what has nothing to be looked for in is passed over.
-/
namespace ReleaseGate.Contract

open Json

/-- The label of a metric, unless it is empty. -/
def labelOf? (metric : Value) : Option String := do
  let label ← (← metric.field? "granularity_label").asText?
  if label.isEmpty then none else some label

def isPopulated (provenance : Value) (field : String) : Bool :=
  match (provenance.field? field).bind Value.asText? with
  | some s => !Text.isBlank s.toList
  | none => false

def provenanceDefects (c : Contract) (metric : Value) : List MetricDefect :=
  match metric.field? "tool_provenance" with
  | some (.record fields) =>
    (c.provenanceFields.names.filter fun f => !isPopulated (.record fields) f).map .provenanceField
  | _ => [.provenance]

def hasNumber (metric : Value) : Bool :=
  (metric.field? "value").any Value.isNumber

def metricDefects (c : Contract) (metric : Value) : List MetricDefect :=
  if metric.isRecord then
    (c.metricFields.names.filter fun f => (metric.field? f).isNone).map .missingField ++
      (if (labelOf? metric).isNone then [.label] else []) ++
      (if hasNumber metric then [] else [.value]) ++
      provenanceDefects c metric
  else [.notRecord]

def metricViolations (c : Contract) (dimension : String) : Nat → List Value → List Violation
  | _, [] => []
  | index, metric :: metrics =>
    (metricDefects c metric).map (.metric dimension index) ++
      metricViolations c dimension (index + 1) metrics

def missingLabels (r : Requirement) (metrics : List Value) : List String :=
  r.labels.names.filter fun label => !(metrics.filterMap labelOf?).contains label

def dimensionViolations (c : Contract) (dimensions : List (String × Value)) (name : String)
    (r : Requirement) : List Violation :=
  match dimensions.lookup name with
  | some (.record fields) =>
    match (fields.lookup "metrics").bind Value.asList? with
    | some metrics =>
      let missing := missingLabels r metrics
      metricViolations c name 0 metrics ++ if missing.isEmpty then [] else [.labels name missing]
    | none => [.metrics name]
  | _ => [.dimension name]

def schemaViolations (c : Contract) (taxonomy : Value) : List Violation :=
  let found := taxonomy.field? "schema"
  if found.bind Value.asText? = some c.schema then [] else [.schema c.schema found]

def taxonomyViolations (c : Contract) (taxonomy : Value) : List Violation :=
  schemaViolations c taxonomy ++
    match (taxonomy.field? "dimensions").bind Value.asRecord? with
    | some dimensions =>
      c.dimensions.entries.flatMap fun e => dimensionViolations c dimensions e.1 e.2
    | none => [.dimensions]

/-- The reports on a taxonomy document whose path is `root`. -/
def taxonomyReports (c : Contract) (root : String) (taxonomy : Value) : List String :=
  (c.taxonomyViolations taxonomy).map (·.message root)

/-- Checks the taxonomy that an evidence document holds. -/
def artifactViolations (c : Contract) (artifact : Value) : List Violation :=
  match artifact.field? taxonomyKey with
  | some (.record fields) => taxonomyViolations c (.record fields)
  | _ => [.noTaxonomy]

/-- The reports on an evidence document. -/
def artifactReports (c : Contract) (artifact : Value) : List String :=
  (artifactViolations c artifact).map (·.message taxonomyKey)

end ReleaseGate.Contract
