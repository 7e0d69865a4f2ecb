import ReleaseGate.Json.Decode
import ReleaseGate.Contract.Violation

/-!
# Counting taxonomies

A taxonomy document has dimensions, each with metrics. A metric is a counted value with the label of
what was counted, and the provenance that reproduces it.
-/
namespace ReleaseGate

namespace Taxonomy

open Json

structure Provenance where
  source : String := ""
  commandSignature : String := ""
deriving DecidableEq, Repr, Inhabited

structure Metric where
  key : String := ""
  label : String := ""
  value : UInt64 := 0
  unit : String := ""
  provenance : Provenance := {}
deriving DecidableEq, Repr, Inhabited

/-- How the metrics of a dimension relate to each other. -/
inductive ComparisonMode where
  | sideBySide
deriving DecidableEq, Repr, Inhabited

structure Dimension where
  comparisonMode : ComparisonMode := .sideBySide
  metrics : List Metric := []
deriving DecidableEq, Repr, Inhabited

end Taxonomy

structure Taxonomy where
  schema : String := ""
  contractRef : String := ""
  dimensions : NameMap Taxonomy.Dimension := .empty
deriving DecidableEq, Repr, Inhabited

namespace Taxonomy

open Json

def ComparisonMode.names : List (String × ComparisonMode) :=
  [("side_by_side", .sideBySide)]

def ComparisonMode.name : ComparisonMode → String
  | .sideBySide => "side_by_side"

def Provenance.toValue (p : Provenance) : Value :=
  .record [("source", .text p.source), ("command_signature", .text p.commandSignature)]

def Metric.toValue (m : Metric) : Value :=
  .record [("metric_key", .text m.key), ("granularity_label", .text m.label),
    ("value", .word m.value), ("unit", .text m.unit), ("tool_provenance", m.provenance.toValue)]

def Dimension.toValue (d : Dimension) : Value :=
  .record [("comparison_mode", .text d.comparisonMode.name),
    ("metrics", .list (d.metrics.map Metric.toValue))]

def toValue (t : Taxonomy) : Value :=
  .record [("schema", .text t.schema), ("contract_ref", .text t.contractRef),
    ("dimensions", .record (t.dimensions.entries.map fun e => (e.1, e.2.toValue)))]

def Provenance.fields : List (RecordField Provenance) :=
  [.needed "source" Tree.toText fun source p => { p with source },
    .needed "command_signature" Tree.toText fun commandSignature p => { p with commandSignature }]

def Metric.fields : List (RecordField Metric) :=
  [.needed "metric_key" Tree.toText fun key m => { m with key },
    .needed "granularity_label" Tree.toText fun label m => { m with label },
    .needed "value" Tree.toWord fun value m => { m with value },
    .needed "unit" Tree.toText fun unit m => { m with unit },
    .needed "tool_provenance" (Tree.toRecord Provenance.fields {})
      fun provenance m => { m with provenance }]

def Dimension.fields : List (RecordField Dimension) :=
  [.needed "comparison_mode" (Tree.toChoice ComparisonMode.names)
      fun comparisonMode d => { d with comparisonMode },
    .needed "metrics" (Tree.toList (Tree.toRecord Metric.fields {}))
      fun metrics d => { d with metrics }]

def fields : List (RecordField Taxonomy) :=
  [.needed "schema" Tree.toText fun schema t => { t with schema },
    .needed "contract_ref" Tree.toText fun contractRef t => { t with contractRef },
    .needed "dimensions" (Tree.toNameMap (Tree.toRecord Dimension.fields {}))
      fun dimensions t => { t with dimensions }]

end Taxonomy

end ReleaseGate
