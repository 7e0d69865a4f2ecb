import ReleaseGate.Json.Printer
import ReleaseGate.Text.Quoted

/-!
# Contract violations

What a taxonomy document can lack, and how each lack is reported: with the dotted path of its place.
-/
namespace ReleaseGate.Contract

/-- What one metric lacks. -/
inductive MetricDefect where
  | notRecord
  | missingField (field : String)
  | label
  | value
  | provenance
  | provenanceField (field : String)
deriving DecidableEq, Repr

inductive Violation where
  | noTaxonomy
  | schema (expected : String) (found : Option Json.Value)
  | dimensions
  | dimension (name : String)
  | metrics (dimension : String)
  | metric (dimension : String) (index : Nat) (defect : MetricDefect)
  | labels (dimension : String) (missing : List String)
deriving Repr

/-- Where an evidence document holds its taxonomy. -/
def taxonomyKey : String := "counting_taxonomy"

def MetricDefect.message (path : String) : MetricDefect → String
  | .notRecord => path ++ " must be an object"
  | .missingField field => path ++ " missing field " ++ Text.quoted field
  | .label => path ++ ".granularity_label must be a non-empty string"
  | .value => path ++ ".value must be numeric"
  | .provenance => path ++ ".tool_provenance must be an object"
  | .provenanceField field => path ++ ".tool_provenance." ++ field ++ " must be non-empty"

def dimensionPath (root name : String) : String :=
  root ++ ".dimensions." ++ name

def metricPath (root dimension : String) (index : Nat) : String :=
  dimensionPath root dimension ++ ".metrics[" ++ String.ofList (Json.natDigits index) ++ "]"

/-- `root` is the path of the taxonomy. -/
def Violation.message (root : String) : Violation → String
  | .noTaxonomy => "missing top-level " ++ taxonomyKey ++ " object"
  | .schema expected found =>
    root ++ ".schema must be " ++ Text.quoted expected ++ ", got " ++
      match found with
      | none => "nothing"
      | some v => v.compactText
  | .dimensions => root ++ ".dimensions must be an object"
  | .dimension name => "missing " ++ dimensionPath root name
  | .metrics name => dimensionPath root name ++ ".metrics must be an array"
  | .metric name index defect => defect.message (metricPath root name index)
  | .labels name missing =>
    dimensionPath root name ++ " missing granularity labels: " ++ ", ".intercalate missing

end ReleaseGate.Contract
