import ReleaseGate.Proofs.Contract.Weaker

/-!
# Populated fields

What is known of the fields of metrics once a document is accepted. Three of the fields have a check
of their own. Of every other one only the presence is looked at, so its value can be anything.
-/
namespace ReleaseGate

open Json

section Values

/-- Gives other values to the fields of a record. -/
def Json.Value.mapFields (f : String → Value → Value) : Value → Value
  | .record fields => .record (fields.map fun e => (e.1, f e.1 e.2))
  | v => v

def Json.Value.mapField (name : String) (f : Value → Value) (v : Value) : Value :=
  v.mapFields fun key found => if key = name then f found else found

def Json.Value.mapItems (f : Value → Value) : Value → Value
  | .list items => .list (items.map f)
  | v => v

variable {f : String → Value → Value} {v : Value} {name : String}

theorem Json.Value.isRecord_mapFields : (v.mapFields f).isRecord = v.isRecord := by
  cases v with
  | record fields => rfl
  | _ => rfl

theorem Json.Value.field?_mapFields :
    (v.mapFields f).field? name = (v.field? name).map (f name) := by
  cases v with
  | record fields => exact NameMap.lookup_map f fields name
  | _ => rfl

theorem Json.Value.field?_mapField {key : String} {h : Value → Value} :
    (v.mapField name h).field? key =
      if key = name then (v.field? key).map h else v.field? key := by
  rw [mapField, field?_mapFields]
  split
  case isTrue => rfl
  case isFalse => exact Option.map_id'

end Values

namespace Contract

/-- The fields of a metric whose values are looked at. -/
def inspectedFields : List String :=
  ["granularity_label", "value", "tool_provenance"]

/-- Gives other values to the fields of a metric that are not looked at. -/
def revalueMetric (g : String → Value → Value) (metric : Value) : Value :=
  metric.mapFields fun name v => if name ∈ inspectedFields then v else g name v

/-- Gives other values to those fields in all metrics of a taxonomy. -/
def revalue (g : String → Value → Value) (taxonomy : Value) : Value :=
  taxonomy.mapField "dimensions" (·.mapFields fun _ dimension =>
    dimension.mapField "metrics" (·.mapItems (revalueMetric g)))

section Revalue

variable {c : Contract} {g : String → Value → Value}

theorem isNone_field?_revalueMetric {metric : Value} {name : String} :
    ((revalueMetric g metric).field? name).isNone = (metric.field? name).isNone := by
  rw [revalueMetric, Value.field?_mapFields, Option.isNone_map]

theorem field?_revalueMetric {metric : Value} {name : String} (h : name ∈ inspectedFields) :
    (revalueMetric g metric).field? name = metric.field? name := by
  rw [revalueMetric, Value.field?_mapFields]
  simp only [if_pos h]
  exact Option.map_id'

theorem labelOf?_revalueMetric {metric : Value} :
    labelOf? (revalueMetric g metric) = labelOf? metric := by
  rw [labelOf?, labelOf?, field?_revalueMetric (by decide)]

theorem metricDefects_revalueMetric {metric : Value} :
    metricDefects c (revalueMetric g metric) = metricDefects c metric := by
  have hrecord : (revalueMetric g metric).isRecord = metric.isRecord := Value.isRecord_mapFields
  have hnumber : hasNumber (revalueMetric g metric) = hasNumber metric := by
    rw [hasNumber, hasNumber, field?_revalueMetric (by decide)]
  have hprovenance : provenanceDefects c (revalueMetric g metric) = provenanceDefects c metric := by
    rw [provenanceDefects, provenanceDefects, field?_revalueMetric (by decide)]
  simp only [metricDefects, hrecord, isNone_field?_revalueMetric, labelOf?_revalueMetric, hnumber,
    hprovenance]

theorem metricViolations_map_revalueMetric {name : String} {start : Nat} {metrics : List Value} :
    metricViolations c name start (metrics.map (revalueMetric g)) =
      metricViolations c name start metrics := by
  induction metrics generalizing start with
  | nil => rfl
  | cons metric metrics ih =>
    rw [List.map_cons, metricViolations, metricViolations, metricDefects_revalueMetric, ih]

theorem missingLabels_map_revalueMetric {r : Requirement} {metrics : List Value} :
    missingLabels r (metrics.map (revalueMetric g)) = missingLabels r metrics := by
  simp only [missingLabels, List.filterMap_map, Function.comp_def, labelOf?_revalueMetric]

theorem dimensionViolations_revalue {dimensions : List (String × Value)} {name : String}
    {r : Requirement} :
    dimensionViolations c (dimensions.map fun e =>
      (e.1, e.2.mapField "metrics" (·.mapItems (revalueMetric g)))) name r =
        dimensionViolations c dimensions name r := by
  have hlookup := NameMap.lookup_map
    (fun _ v => v.mapField "metrics" (·.mapItems (revalueMetric g))) dimensions name
  unfold dimensionViolations
  rw [hlookup]
  cases dimensions.lookup name with
  | none => rfl
  | some dimension =>
    cases dimension with
    | record fields =>
      have hmetrics := NameMap.lookup_map
        (fun key v => if key = "metrics" then v.mapItems (revalueMetric g) else v) fields "metrics"
      simp only [Option.map_some, Value.mapField, Value.mapFields, hmetrics]
      cases fields.lookup "metrics" with
      | none => rfl
      | some metrics =>
        cases metrics with
        | list items =>
          simp only [Option.map_some, if_true, Value.mapItems, Option.bind_some, Value.asList?,
            metricViolations_map_revalueMetric, missingLabels_map_revalueMetric]
        | _ => rfl
    | _ => rfl

theorem taxonomyViolations_revalue {taxonomy : Value} :
    c.taxonomyViolations (revalue g taxonomy) = c.taxonomyViolations taxonomy := by
  have hschema : schemaViolations c (revalue g taxonomy) = schemaViolations c taxonomy := by
    have hfield : (revalue g taxonomy).field? "schema" = taxonomy.field? "schema" :=
      Value.field?_mapField.trans (if_neg (by decide))
    rw [schemaViolations, schemaViolations, hfield]
  unfold taxonomyViolations
  rw [hschema, revalue, Value.field?_mapField, if_pos rfl]
  congr 1
  cases taxonomy.field? "dimensions" with
  | none => rfl
  | some v =>
    cases v with
    | record dimensions =>
      exact congrArg (c.dimensions.entries.flatMap ·) (funext fun e => dimensionViolations_revalue)
    | _ => rfl

theorem taxonomyReports_revalue (root : String) (taxonomy : Value) :
    c.taxonomyReports root (revalue g taxonomy) = c.taxonomyReports root taxonomy := by
  rw [taxonomyReports, taxonomyReports, taxonomyViolations_revalue]

end Revalue

/-- In the required dimensions each metric has each required field, with such a value. -/
def EachRequired (c : Contract) (taxonomy : Value) (P : String → Value → Prop) : Prop :=
  ∀ name ∈ c.dimensions.names, ∃ metrics,
    taxonomy.at? ["dimensions", name, "metrics"] = some (.list metrics) ∧
      ∀ metric ∈ metrics, ∀ field ∈ c.metricFields.names,
        ∃ v, metric.field? field = some v ∧ P field v

theorem MetricMeets.ne_empty {c : Contract} {metric v : Value} {field : String}
    (h : MetricMeets c metric) (hfield : field ∈ inspectedFields)
    (hv : metric.field? field = some v) : v ≠ .text "" := by
  rintro rfl
  simp only [inspectedFields, List.mem_cons, List.not_mem_nil, or_false] at hfield
  rcases hfield with rfl | rfl | rfl
  · obtain ⟨s, hs, hne⟩ := h.label
    have he : "" = s := by simpa [hv] using hs
    exact hne he.symm
  · obtain ⟨n, hn⟩ := h.value
    simp [hv] at hn
  · obtain ⟨fields, hfields, -⟩ := h.provenance
    simp [hv] at hfields

theorem TaxonomyMeets.eachRequired {c : Contract} {taxonomy : Value}
    (h : TaxonomyMeets c taxonomy) :
    EachRequired c taxonomy fun field v => field ∈ inspectedFields → v ≠ .text "" := by
  intro name hname
  obtain ⟨dimensions, hdimensions, hall⟩ := h.dimensions
  obtain ⟨r, hr⟩ := NameMap.mem_names_iff_exists.1 hname
  obtain ⟨fields, metrics, hfields, hmetrics, hmeet⟩ := hall name r hr
  refine ⟨metrics, ?_, fun metric hmetric field hfield => ?_⟩
  · rw [← Value.at?_singleton] at hdimensions
    have hdimension : taxonomy.at? ["dimensions", name] = some (.record fields) :=
      (Value.at?_concat_eq_some_iff ["dimensions"]).2 ⟨dimensions, hdimensions, hfields⟩
    exact (Value.at?_concat_eq_some_iff ["dimensions", name]).2
      ⟨fields, hdimension, hmetrics⟩
  · have hmetric := hmeet.each metric hmetric
    obtain ⟨v, hv⟩ := hmetric.fields field hfield
    exact ⟨v, hv, fun hinspected => hmetric.ne_empty hinspected hv⟩

/-- In an accepted document each metric of a required dimension has each required field, and those
whose values are looked at are not empty. With any values of the others it is accepted as well. -/
theorem eachRequired_of_taxonomyReports_eq_nil {c : Contract} {root : String} {taxonomy : Value}
    (h : c.taxonomyReports root taxonomy = []) :
    (EachRequired c taxonomy fun field v => field ∈ inspectedFields → v ≠ .text "") ∧
      ∀ g, c.taxonomyReports root (revalue g taxonomy) = [] := by
  constructor
  · have hmeets := taxonomyViolations_eq_nil_iff.1 (List.map_eq_nil_iff.1 h)
    exact hmeets.eachRequired
  · intro g
    rw [taxonomyReports_revalue, h]

/-- A metric with an empty unit. -/
def emptyUnitTaxonomy : Value :=
  .record [("schema", .text "taxonomy.v2"),
    ("dimensions", .record [("loc", .record [("metrics", .list [
      .record [("granularity_label", .text "logical"), ("value", .nat 7), ("unit", .text ""),
        ("tool_provenance", .record [])]])])])]

theorem eachRequired_of_taxonomyReports_eq_nil_emptyUnitTaxonomy :
    plainContract.taxonomyReports "t" emptyUnitTaxonomy = [] ∧
      (EachRequired plainContract emptyUnitTaxonomy fun field v =>
        field ∈ inspectedFields → v ≠ .text "") ∧
      plainContract.taxonomyReports "t" (revalue (fun _ _ => .null) emptyUnitTaxonomy) = [] := by
  have hnil : plainContract.taxonomyReports "t" emptyUnitTaxonomy = [] := by decide
  obtain ⟨heach, haccepted⟩ := eachRequired_of_taxonomyReports_eq_nil hnil
  exact ⟨hnil, heach, haccepted fun _ _ => .null⟩

/-- A required text can be empty: of the unit only the presence is looked at. -/
theorem not_eachRequired_plainContract :
    ¬ ∀ (c : Contract) (root : String) (taxonomy : Value), c.taxonomyReports root taxonomy = [] →
      EachRequired c taxonomy fun _ v => v ≠ .text "" := by
  intro hall
  have hnil : plainContract.taxonomyReports "t" emptyUnitTaxonomy = [] := by decide
  obtain ⟨metrics, hmetrics, heach⟩ :=
    hall plainContract "t" emptyUnitTaxonomy hnil "loc" (by decide)
  obtain rfl : [.record [("granularity_label", .text "logical"), ("value", .nat 7),
      ("unit", .text ""), ("tool_provenance", .record [])]] = metrics :=
    Value.list.inj (Option.some.inj hmetrics)
  obtain ⟨v, hv, hne⟩ := heach _ List.mem_cons_self "unit" (by decide)
  exact hne (Option.some.inj hv).symm

end Contract

end ReleaseGate
