import Mathlib.Logic.Basic
import ReleaseGate.Contract.Check
import ReleaseGate.Proofs.Json.Value
import ReleaseGate.Proofs.NameMap

/-!
# Documents that satisfy a contract

What a contract demands, said of the document alone. The checks find nothing exactly in documents of
which that holds.
-/
namespace ReleaseGate.Contract

open Json

/-- A field of provenance holds a text that is not all white space. -/
def Populated (fields : List (String × Value)) (name : String) : Prop :=
  ∃ s, fields.lookup name = some (.text s) ∧ ∃ ch ∈ s.toList, Text.isSpace ch = false

structure MetricMeets (c : Contract) (metric : Value) : Prop where
  record : ∃ fields, metric = .record fields
  fields : ∀ name ∈ c.metricFields.names, ∃ v, metric.field? name = some v
  label : ∃ s, metric.field? "granularity_label" = some (.text s) ∧ s ≠ ""
  value : ∃ n, metric.field? "value" = some (.number n)
  provenance : ∃ fields, metric.field? "tool_provenance" = some (.record fields) ∧
    ∀ name ∈ c.provenanceFields.names, Populated fields name

/-- The metrics of a dimension all meet the contract and cover the labels that it requires. -/
structure MetricsMeet (c : Contract) (r : Requirement) (metrics : List Value) : Prop where
  each : ∀ metric ∈ metrics, MetricMeets c metric
  covered : ∀ label ∈ r.labels.names,
    ∃ metric ∈ metrics, metric.field? "granularity_label" = some (.text label)

structure TaxonomyMeets (c : Contract) (taxonomy : Value) : Prop where
  schema : taxonomy.field? "schema" = some (.text c.schema)
  dimensions : ∃ dimensions, taxonomy.field? "dimensions" = some (.record dimensions) ∧
    ∀ name r, c.dimensions.get? name = some r → ∃ fields metrics,
      dimensions.lookup name = some (.record fields) ∧
        fields.lookup "metrics" = some (.list metrics) ∧ MetricsMeet c r metrics

/-- The taxonomy in an evidence document meets the contract. -/
def ArtifactMeets (c : Contract) (artifact : Value) : Prop :=
  ∃ taxonomy, artifact.field? taxonomyKey = some (.record taxonomy) ∧
    TaxonomyMeets c (.record taxonomy)

theorem labelOf?_eq_some_iff {metric : Value} {label : String} :
    labelOf? metric = some label ↔
      metric.field? "granularity_label" = some (.text label) ∧ label ≠ "" := by
  simp only [labelOf?, Option.bind_eq_bind, Option.bind_eq_some_iff, Value.asText?_eq_some_iff]
  constructor
  · rintro ⟨v, hv, s, rfl, hs⟩
    split at hs
    · simp at hs
    · obtain rfl := Option.some.inj hs
      exact ⟨hv, by simp_all⟩
  · rintro ⟨hv, hne⟩
    exact ⟨_, hv, label, rfl, by simp [hne]⟩

theorem isPopulated_iff {fields : List (String × Value)} {name : String} :
    isPopulated (.record fields) name ↔ Populated fields name := by
  have hfield : (Value.record fields).field? name = fields.lookup name := rfl
  unfold isPopulated Populated
  rw [hfield]
  cases hv : (fields.lookup name).bind Value.asText? with
  | none =>
    simp only [Bool.false_eq_true, false_iff, not_exists, not_and]
    intro s hs
    simp [hs, Value.asText?] at hv
  | some s =>
    obtain ⟨v, hl, hs⟩ := Option.bind_eq_some_iff.1 hv
    rw [Value.asText?_eq_some_iff] at hs
    simp [hl, hs, ← Text.isBlank_eq_false_iff]

theorem provenanceDefects_eq_nil_iff {c : Contract} {metric : Value} :
    provenanceDefects c metric = [] ↔
      ∃ fields, metric.field? "tool_provenance" = some (.record fields) ∧
        ∀ name ∈ c.provenanceFields.names, Populated fields name := by
  unfold provenanceDefects
  split
  case h_1 fields hf => simp [hf, isPopulated_iff]
  case h_2 hno =>
    simp only [reduceCtorEq, false_iff, not_exists, not_and]
    exact fun fields hf => absurd hf (hno fields)

theorem hasNumber_iff {metric : Value} :
    hasNumber metric ↔ ∃ n, metric.field? "value" = some (.number n) := by
  simp only [hasNumber, Option.any_eq_true, Value.isNumber_iff]
  constructor
  · rintro ⟨v, hv, n, rfl⟩
    exact ⟨n, hv⟩
  · rintro ⟨n, hn⟩
    exact ⟨_, hn, n, rfl⟩

theorem metricDefects_eq_nil_iff {c : Contract} {metric : Value} :
    metricDefects c metric = [] ↔ MetricMeets c metric := by
  unfold metricDefects
  by_cases hr : metric.isRecord
  · have hfields : (c.metricFields.names.filter fun f => (metric.field? f).isNone) = [] ↔
        ∀ name ∈ c.metricFields.names, ∃ v, metric.field? name = some v := by
      simp [List.filter_eq_nil_iff, ← Option.isSome_iff_exists, Option.isSome_iff_ne_none]
    have hlabel : ¬ (labelOf? metric).isNone ↔
        ∃ s, metric.field? "granularity_label" = some (.text s) ∧ s ≠ "" := by
      simp only [← labelOf?_eq_some_iff, ← Option.isSome_iff_exists]
      simp [Option.isSome_iff_ne_none]
    rw [if_pos hr]
    simp only [List.append_eq_nil_iff, List.map_eq_nil_iff, hfields, ite_eq_right_iff,
      ite_eq_left_iff, List.cons_ne_nil, imp_false, not_not, hlabel, hasNumber_iff,
      provenanceDefects_eq_nil_iff]
    constructor
    · rintro ⟨⟨⟨hf, hl⟩, hv⟩, hp⟩
      exact ⟨Value.isRecord_iff.1 hr, hf, hl, hv, hp⟩
    · rintro ⟨-, hf, hl, hv, hp⟩
      exact ⟨⟨⟨hf, hl⟩, hv⟩, hp⟩
  · rw [if_neg hr]
    simp only [List.cons_ne_nil, false_iff]
    exact fun h => hr (Value.isRecord_iff.2 h.record)

theorem metricViolations_eq_nil_iff {c : Contract} {dimension : String} {index : Nat}
    {metrics : List Value} :
    metricViolations c dimension index metrics = [] ↔ ∀ metric ∈ metrics, MetricMeets c metric := by
  induction metrics generalizing index with
  | nil => simp [metricViolations]
  | cons metric metrics ih =>
    simp only [metricViolations, List.append_eq_nil_iff, List.map_eq_nil_iff,
      metricDefects_eq_nil_iff, ih, List.forall_mem_cons]

/-- Where all metrics meet the contract, an empty label is as uncovered as any other that is not
there: no metric has it. -/
theorem missingLabels_eq_nil_iff {c : Contract} {r : Requirement} {metrics : List Value}
    (h : ∀ metric ∈ metrics, MetricMeets c metric) :
    missingLabels r metrics = [] ↔ ∀ label ∈ r.labels.names,
      ∃ metric ∈ metrics, metric.field? "granularity_label" = some (.text label) := by
  simp only [missingLabels, List.filter_eq_nil_iff, Bool.not_eq_true', Bool.not_eq_false,
    List.contains_iff_mem, List.mem_filterMap, labelOf?_eq_some_iff]
  refine forall₂_congr fun label _ => ⟨?_, ?_⟩
  · rintro ⟨metric, hm, hl, -⟩
    exact ⟨metric, hm, hl⟩
  · rintro ⟨metric, hm, hl⟩
    obtain ⟨s, hs, hne⟩ := (h metric hm).label
    have he : s = label := by simpa [hs] using hl
    exact ⟨metric, hm, hl, he ▸ hne⟩

theorem dimensionViolations_eq_nil_iff {c : Contract} {dimensions : List (String × Value)}
    {name : String} {r : Requirement} :
    dimensionViolations c dimensions name r = [] ↔ ∃ fields metrics,
      dimensions.lookup name = some (.record fields) ∧
        fields.lookup "metrics" = some (.list metrics) ∧ MetricsMeet c r metrics := by
  unfold dimensionViolations
  split
  case h_1 fields hdimension =>
    simp only [hdimension, Option.some.injEq, Value.record.injEq]
    cases hm : (fields.lookup "metrics").bind Value.asList? with
    | none =>
      simp only [List.cons_ne_nil, false_iff]
      rintro ⟨_, metrics, rfl, hlist, -⟩
      simp [hlist, Value.asList?] at hm
    | some metrics =>
      obtain ⟨v, hv, hlist⟩ := Option.bind_eq_some_iff.1 hm
      rw [Value.asList?_eq_some_iff] at hlist
      subst hlist
      simp only [List.append_eq_nil_iff, metricViolations_eq_nil_iff, ite_eq_left_iff,
        List.cons_ne_nil, imp_false, not_not, List.isEmpty_iff]
      constructor
      · rintro ⟨heach, hcovered⟩
        exact ⟨fields, metrics, rfl, hv, heach, (missingLabels_eq_nil_iff heach).1 hcovered⟩
      · rintro ⟨_, found, rfl, hfound, heach, hcovered⟩
        obtain rfl : metrics = found := by simpa [hv] using hfound
        exact ⟨heach, (missingLabels_eq_nil_iff heach).2 hcovered⟩
  case h_2 hno =>
    simp only [List.cons_ne_nil, false_iff]
    rintro ⟨fields, -, hdimension, -⟩
    exact hno fields hdimension

theorem schemaViolations_eq_nil_iff {c : Contract} {taxonomy : Value} :
    schemaViolations c taxonomy = [] ↔ taxonomy.field? "schema" = some (.text c.schema) := by
  simp only [schemaViolations, ite_eq_left_iff, List.cons_ne_nil, imp_false, not_not,
    Option.bind_eq_some_iff, Value.asText?_eq_some_iff]
  simp

theorem taxonomyViolations_eq_nil_iff {c : Contract} {taxonomy : Value} :
    taxonomyViolations c taxonomy = [] ↔ TaxonomyMeets c taxonomy := by
  unfold taxonomyViolations
  rw [List.append_eq_nil_iff, schemaViolations_eq_nil_iff]
  cases hd : (taxonomy.field? "dimensions").bind Value.asRecord? with
  | none =>
    simp only [List.cons_ne_nil, and_false, false_iff]
    rintro ⟨-, dimensions, hfield, -⟩
    simp [hfield, Value.asRecord?] at hd
  | some dimensions =>
    obtain ⟨v, hfield, hrecord⟩ := Option.bind_eq_some_iff.1 hd
    rw [Value.asRecord?_eq_some_iff] at hrecord
    subst hrecord
    simp only [List.flatMap_eq_nil_iff, dimensionViolations_eq_nil_iff, Prod.forall,
      NameMap.mem_entries_iff]
    constructor
    · rintro ⟨hs, hall⟩
      exact ⟨hs, dimensions, hfield, hall⟩
    · rintro ⟨hs, found, hfound, hall⟩
      obtain rfl : dimensions = found := by simpa [hfield] using hfound
      exact ⟨hs, hall⟩

theorem artifactViolations_eq_nil_iff {c : Contract} {artifact : Value} :
    artifactViolations c artifact = [] ↔ ArtifactMeets c artifact := by
  unfold artifactViolations
  split
  case h_1 fields hfield =>
    rw [taxonomyViolations_eq_nil_iff]
    constructor
    · exact fun h => ⟨fields, hfield, h⟩
    · rintro ⟨found, hfound, h⟩
      obtain rfl : fields = found := by simpa [hfield] using hfound
      exact h
  case h_2 hno =>
    simp only [List.cons_ne_nil, false_iff]
    rintro ⟨fields, hfield, -⟩
    exact hno fields hfield

/-- Nothing is reported on a document exactly if its taxonomy has the schema of the contract and
every required dimension, each with metrics that are complete and cover the required labels. -/
theorem artifactReports_eq_nil_iff (c : Contract) (artifact : Value) :
    c.artifactReports artifact = [] ↔
      ∃ taxonomy, artifact.field? taxonomyKey = some (.record taxonomy) ∧
        taxonomy.lookup "schema" = some (.text c.schema) ∧
        ∃ dimensions, taxonomy.lookup "dimensions" = some (.record dimensions) ∧
          ∀ name r, c.dimensions.get? name = some r → ∃ fields metrics,
            dimensions.lookup name = some (.record fields) ∧
            fields.lookup "metrics" = some (.list metrics) ∧
            (∀ metric ∈ metrics, MetricMeets c metric) ∧
            ∀ label ∈ r.labels.names,
              ∃ metric ∈ metrics, metric.field? "granularity_label" = some (.text label) := by
  rw [artifactReports, List.map_eq_nil_iff, artifactViolations_eq_nil_iff]
  refine exists_congr fun taxonomy => and_congr_right fun _ => ⟨?_, ?_⟩
  · rintro ⟨hs, dimensions, hd, hall⟩
    refine ⟨hs, dimensions, hd, fun name r hr => ?_⟩
    obtain ⟨fields, metrics, hf, hm, h⟩ := hall name r hr
    exact ⟨fields, metrics, hf, hm, h.each, h.covered⟩
  · rintro ⟨hs, dimensions, hd, hall⟩
    refine ⟨hs, dimensions, hd, fun name r hr => ?_⟩
    obtain ⟨fields, metrics, hf, hm, heach, hcovered⟩ := hall name r hr
    exact ⟨fields, metrics, hf, hm, heach, hcovered⟩

end ReleaseGate.Contract
