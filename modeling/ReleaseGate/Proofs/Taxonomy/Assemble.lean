import ReleaseGate.Proofs.Contract.Satisfied
import ReleaseGate.Taxonomy.Assemble

/-!
# Contracts that assembled taxonomies meet

What an assembled taxonomy has to offer to a contract: three dimensions, each with its labels and
with the source that its counts come from. A contract that demands no more than that is met,
whatever was counted.
-/
namespace ReleaseGate.Taxonomy

open Json Contract

/-- A dimension of an assembled taxonomy, with the source that its metrics record. -/
structure Offer where
  name : String
  labels : List String
  source : String

def offers (s : Sources) : List Offer :=
  [⟨"loc", ["loc_raw_lines", "loc_logical_lines"], s.sourceGlob⟩,
    ⟨"providers", ["provider_canonical_ids", "provider_alias_ids", "provider_families"],
      s.providerMetadata⟩,
    ⟨"extensions",
      ["extension_official_subset", "extension_community_subset", "extension_full_corpus"],
      s.extensionCatalog⟩]

/-- The fields of every metric. -/
def metricFieldNames : List String :=
  ["metric_key", "granularity_label", "value", "unit", "tool_provenance"]

/-- The fields of every provenance. -/
def provenanceFieldNames : List String :=
  ["source", "command_signature"]

/-- Some character is not white space. -/
def IsVisible (s : String) : Prop :=
  ∃ c ∈ s.toList, Text.isSpace c = false

/-- The offer covers what a contract requires of a dimension. -/
structure Offer.Covers (o : Offer) (c : Contract) (r : Requirement) : Prop where
  labels : ∀ label ∈ r.labels.names, label ∈ o.labels
  metricFields : ∀ field ∈ c.metricFields.names, field ∈ metricFieldNames
  provenanceFields : ∀ field ∈ c.provenanceFields.names, field ∈ provenanceFieldNames
  source : "source" ∈ c.provenanceFields.names → IsVisible o.source

theorem IsVisible.append_right {a : String} (h : IsVisible a) (b : String) :
    IsVisible (a ++ b) := by
  obtain ⟨c, hmem, hc⟩ := h
  refine ⟨c, ?_, hc⟩
  rw [String.toList_append]
  exact List.mem_append_left _ hmem

theorem isVisible_signatureStart : IsVisible "paritygate count --" :=
  ⟨'p', by decide, by decide⟩

theorem isVisible_sourceGlob (s : Sources) : IsVisible s.sourceGlob :=
  ⟨'*', by simp [Sources.sourceGlob], by decide⟩

/-- A record has a field of each of its names and no other. -/
theorem exists_field?_iff {fields : List (String × Value)} {name : String} :
    (∃ v, (Value.record fields).field? name = some v) ↔ name ∈ fields.map (·.1) := by
  rw [← Option.isSome_iff_exists, Option.isSome_iff_ne_none, ← not_iff_not, not_not,
    ← NameMap.lookup_eq_none_iff]
  rfl

theorem exists_metricField_iff (m : Metric) (name : String) :
    (∃ v, m.toValue.field? name = some v) ↔ name ∈ metricFieldNames :=
  exists_field?_iff

theorem Provenance.populated_iff {p : Provenance} (hsignature : IsVisible p.commandSignature)
    (name : String) :
    Populated [("source", .text p.source), ("command_signature", .text p.commandSignature)] name ↔
      name ∈ provenanceFieldNames ∧ (name = "source" → IsVisible p.source) := by
  simp only [Populated, Entries.lookup_cons, List.lookup_nil, provenanceFieldNames, List.mem_cons,
    List.not_mem_nil, or_false]
  split
  case isTrue h => simp [h, IsVisible]
  case isFalse h =>
    split
    case isTrue h' => simpa [h', IsVisible] using hsignature
    case isFalse h' => simp [h, h']

theorem Metric.meets_toValue_iff {c : Contract} {m : Metric} (hlabel : m.label ≠ "")
    (hsignature : IsVisible m.provenance.commandSignature) :
    MetricMeets c m.toValue ↔
      (∀ field ∈ c.metricFields.names, field ∈ metricFieldNames) ∧
        (∀ field ∈ c.provenanceFields.names, field ∈ provenanceFieldNames) ∧
        ("source" ∈ c.provenanceFields.names → IsVisible m.provenance.source) := by
  have hprovenance : m.toValue.field? "tool_provenance" = some m.provenance.toValue := rfl
  constructor
  · intro h
    obtain ⟨fields, hfields, hpopulated⟩ := h.provenance
    rw [hprovenance, Option.some.injEq, Provenance.toValue, Value.record.injEq] at hfields
    subst hfields
    refine ⟨fun field hf => (exists_metricField_iff m field).1 (h.fields field hf),
      fun field hf => ((Provenance.populated_iff hsignature field).1 (hpopulated field hf)).1,
      fun hf => ((Provenance.populated_iff hsignature "source").1 (hpopulated _ hf)).2 rfl⟩
  · rintro ⟨hfields, hprovenanceFields, hsource⟩
    refine ⟨⟨_, rfl⟩, fun field hf => (exists_metricField_iff m field).2 (hfields field hf),
      ⟨m.label, rfl, hlabel⟩, ⟨_, rfl⟩, _, hprovenance, fun field hf => ?_⟩
    refine (Provenance.populated_iff hsignature field).2 ⟨hprovenanceFields field hf, ?_⟩
    rintro rfl
    exact hsource hf

namespace DimensionKind

def all : List DimensionKind :=
  [.loc, .providers, .extensions]

/-- The metric of one row. -/
def metric (kind : DimensionKind) (s : Sources) (row : String × UInt64) : Metric :=
  { key := kind.metricKey, label := row.1, value := row.2, unit := kind.unit
    provenance := ⟨kind.source s, kind.signature⟩ }

def offer (s : Sources) (kind : DimensionKind) : Offer where
  name := kind.name
  labels := (kind.rows {}).map (·.1)
  source := kind.source s

theorem offers_eq (s : Sources) : offers s = all.map (offer s) := rfl

theorem mem_all (kind : DimensionKind) : kind ∈ all := by
  cases kind <;> simp [all]

theorem labels_rows (kind : DimensionKind) (c : Counts) :
    (kind.rows c).map (·.1) = (kind.rows {}).map (·.1) := by
  cases kind <;> rfl

theorem exists_row (kind : DimensionKind) (c : Counts) : ∃ row, row ∈ kind.rows c := by
  cases kind <;> exact ⟨_, List.mem_cons_self⟩

theorem ne_empty_of_mem_rows {kind : DimensionKind} {c : Counts} {row : String × UInt64}
    (h : row ∈ kind.rows c) : row.1 ≠ "" := by
  have hlabel : row.1 ∈ (kind.rows {}).map (·.1) := by
    rw [← labels_rows kind c]
    exact List.mem_map_of_mem h
  have hall : ∀ label ∈ (kind.rows {}).map (·.1), label ≠ "" := by
    cases kind <;> simp [rows]
  exact hall row.1 hlabel

theorem isVisible_signature (kind : DimensionKind) : IsVisible kind.signature :=
  IsVisible.append_right isVisible_signatureStart kind.name

/-- All metrics of a dimension meet a contract if one does. -/
theorem metric_meets_iff {kind : DimensionKind} {c : Counts} {s : Sources} {contract : Contract}
    {row : String × UInt64} (h : row ∈ kind.rows c) :
    MetricMeets contract (kind.metric s row).toValue ↔
      (∀ field ∈ contract.metricFields.names, field ∈ metricFieldNames) ∧
        (∀ field ∈ contract.provenanceFields.names, field ∈ provenanceFieldNames) ∧
        ("source" ∈ contract.provenanceFields.names → IsVisible (kind.source s)) := by
  have hlabel : (kind.metric s row).label ≠ "" := ne_empty_of_mem_rows h
  exact Metric.meets_toValue_iff hlabel kind.isVisible_signature

theorem metricsMeet_iff {kind : DimensionKind} {c : Counts} {s : Sources} {contract : Contract}
    {r : Requirement} :
    MetricsMeet contract r ((kind.dimension c s).metrics.map Metric.toValue) ↔
      (kind.offer s).Covers contract r := by
  have hmem : ∀ v, v ∈ (kind.dimension c s).metrics.map Metric.toValue ↔
      ∃ row ∈ kind.rows c, (kind.metric s row).toValue = v := by
    simp [dimension, metric]
  have hlabel : ∀ label, (∃ v ∈ (kind.dimension c s).metrics.map Metric.toValue,
      v.field? "granularity_label" = some (.text label)) ↔ label ∈ (kind.offer s).labels := by
    intro label
    rw [offer, ← labels_rows kind c, List.mem_map]
    constructor
    · rintro ⟨v, hv, hfield⟩
      obtain ⟨row, hrow, rfl⟩ := (hmem v).1 hv
      exact ⟨row, hrow, Value.text.inj (Option.some.inj hfield)⟩
    · rintro ⟨row, hrow, rfl⟩
      exact ⟨_, (hmem _).2 ⟨row, hrow, rfl⟩, rfl⟩
  constructor
  · intro h
    obtain ⟨row, hrow⟩ := kind.exists_row c
    obtain ⟨hfields, hprovenance, hsource⟩ :=
      (metric_meets_iff hrow).1 (h.each _ ((hmem _).2 ⟨row, hrow, rfl⟩))
    exact ⟨fun label hl => (hlabel label).1 (h.covered label hl), hfields, hprovenance, hsource⟩
  · intro h
    refine ⟨fun v hv => ?_, fun label hl => (hlabel label).2 (h.labels label hl)⟩
    obtain ⟨row, hrow, rfl⟩ := (hmem v).1 hv
    exact (metric_meets_iff hrow).2 ⟨h.metricFields, h.provenanceFields, h.source⟩

theorem lookup_all {name : String} {f : DimensionKind → α} {a : α} :
    (all.map fun kind => (kind.name, f kind)).lookup name = some a ↔
      ∃ kind : DimensionKind, kind.name = name ∧ f kind = a := by
  have hinj : ∀ k l : DimensionKind, k.name = l.name → k = l := by
    intro k l h
    cases k <;> cases l <;> simp_all [DimensionKind.name]
  simp only [all, List.map_cons, List.map_nil, Entries.lookup_cons, List.lookup_nil]
  constructor
  · intro h
    split at h
    case isTrue hl => exact ⟨_, hl.symm, Option.some.inj h⟩
    split at h
    case isTrue hp => exact ⟨_, hp.symm, Option.some.inj h⟩
    split at h
    case isTrue he => exact ⟨_, he.symm, Option.some.inj h⟩
    case isFalse => simp at h
  · rintro ⟨kind, rfl, rfl⟩
    cases kind <;> simp [DimensionKind.name]

end DimensionKind

theorem get?_dimensions_assemble {c : Counts} {s : Sources} {name : String} {d : Dimension} :
    (assemble c s).dimensions.get? name = some d ↔
      ∃ kind : DimensionKind, kind.name = name ∧ kind.dimension c s = d := by
  have hget : (assemble c s).dimensions.get? name =
      (DimensionKind.all.map fun kind => (kind.name, kind.dimension c s)).lookup name :=
    NameMap.get?_ofList (by simp [DimensionKind.name]) name
  rw [hget, DimensionKind.lookup_all]

/-- A required dimension is met if it is on offer. -/
theorem exists_metrics_iff {c : Counts} {s : Sources} {contract : Contract} {name : String}
    {r : Requirement} :
    (∃ fields metrics,
      ((assemble c s).dimensions.entries.map fun e => (e.1, e.2.toValue)).lookup name =
          some (.record fields) ∧
        fields.lookup "metrics" = some (.list metrics) ∧ MetricsMeet contract r metrics) ↔
      ∃ o ∈ offers s, o.name = name ∧ o.Covers contract r := by
  simp only [NameMap.lookup_map_entries, Option.map_eq_some_iff, get?_dimensions_assemble,
    DimensionKind.offers_eq, List.mem_map]
  constructor
  · rintro ⟨fields, metrics, ⟨d, ⟨kind, hname, rfl⟩, hfields⟩, hmetrics, h⟩
    obtain rfl := Value.record.inj hfields
    obtain rfl : (kind.dimension c s).metrics.map Metric.toValue = metrics :=
      Value.list.inj (Option.some.inj hmetrics)
    exact ⟨_, ⟨kind, kind.mem_all, rfl⟩, hname, DimensionKind.metricsMeet_iff.1 h⟩
  · rintro ⟨o, ⟨kind, -, rfl⟩, hname, h⟩
    exact ⟨_, _, ⟨_, ⟨kind, hname, rfl⟩, rfl⟩, rfl, DimensionKind.metricsMeet_iff.2 h⟩

/-- An assembled taxonomy meets a contract exactly if the contract has its schema and demands no
dimension, label or field that is not on offer, and no source where none is recorded. What was
counted does not matter, and neither does the source of the lines, which is never blank. -/
theorem violations_assemble_eq_nil_iff (c : Counts) (s : Sources) (contract : Contract) :
    ((assemble c s).violations contract = [] ↔
      contract.schema = "pi.qa.counting_taxonomy.v1" ∧
        ∀ name r, contract.dimensions.get? name = some r →
          ∃ o ∈ offers s, o.name = name ∧ o.Covers contract r) ∧
      IsVisible s.sourceGlob ∧
      ∀ c', (assemble c' s).violations contract = [] ↔ (assemble c s).violations contract = [] := by
  have hiff : ∀ c, (assemble c s).violations contract = [] ↔
      contract.schema = "pi.qa.counting_taxonomy.v1" ∧
        ∀ name r, contract.dimensions.get? name = some r →
          ∃ o ∈ offers s, o.name = name ∧ o.Covers contract r := by
    intro c
    have hschema : (assemble c s).toValue.field? "schema" =
        some (.text "pi.qa.counting_taxonomy.v1") := rfl
    have hdimensions : (assemble c s).toValue.field? "dimensions" =
        some (.record ((assemble c s).dimensions.entries.map fun e => (e.1, e.2.toValue))) := rfl
    rw [violations, taxonomyViolations_eq_nil_iff]
    constructor
    · rintro ⟨hs, dimensions, hd, hall⟩
      rw [hschema, Option.some.injEq, Value.text.injEq] at hs
      rw [hdimensions, Option.some.injEq, Value.record.injEq] at hd
      subst hd
      exact ⟨hs.symm, fun name r hr => exists_metrics_iff.1 (hall name r hr)⟩
    · rintro ⟨hs, hall⟩
      exact ⟨hs ▸ hschema, _, hdimensions, fun name r hr => exists_metrics_iff.2 (hall name r hr)⟩
  exact ⟨hiff c, isVisible_sourceGlob s, fun c' => (hiff c').trans (hiff c).symm⟩

end ReleaseGate.Taxonomy
