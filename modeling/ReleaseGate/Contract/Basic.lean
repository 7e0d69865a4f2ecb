import ReleaseGate.Json.Decode

/-!
# Contracts

A contract lists what a taxonomy document must hold: its schema, its dimensions with the labels that
each must cover, and the fields of every metric and of its provenance.
-/
namespace ReleaseGate

structure Contract.Requirement where
  labels : NameSet := .empty
deriving DecidableEq, Inhabited

structure Contract where
  schema : String := ""
  dimensions : NameMap Contract.Requirement := .empty
  metricFields : NameSet := .empty
  provenanceFields : NameSet := .empty
deriving DecidableEq, Inhabited

namespace Contract

open Json

def Requirement.fields : List (RecordField Requirement) :=
  [.optional "required_granularity_labels" Tree.toNameSet fun labels r => { r with labels }]

def fields : List (RecordField Contract) :=
  [.needed "taxonomy_schema" Tree.toText fun schema c => { c with schema },
    .optional "required_dimensions" (Tree.toNameMap (Tree.toRecord Requirement.fields {}))
      fun dimensions c => { c with dimensions },
    .optional "required_metric_fields" Tree.toNameSet fun metricFields c => { c with metricFields },
    .optional "required_tool_provenance_fields" Tree.toNameSet
      fun provenanceFields c => { c with provenanceFields }]

def read (bytes : List UInt8) : Except Fault Contract :=
  decodeDocument (Tree.toRecord fields {}) bytes

def namesValue (names : NameSet) : Value :=
  .list (names.names.map .text)

def Requirement.toValue (r : Requirement) : Value :=
  .record [("required_granularity_labels", namesValue r.labels)]

def toValue (c : Contract) : Value :=
  .record [("taxonomy_schema", .text c.schema),
    ("required_dimensions", .record (c.dimensions.entries.map fun e => (e.1, e.2.toValue))),
    ("required_metric_fields", namesValue c.metricFields),
    ("required_tool_provenance_fields", namesValue c.provenanceFields)]

end Contract

end ReleaseGate
