import Mathlib.Data.Set.Card
import ReleaseGate.Proofs.Contract.Satisfied

/-!
# Failed checks

Every check that a contract asks for, by its place in the document, and when it fails, said of the
document alone. The violations that are found are exactly the failed checks, each one once.
-/
namespace ReleaseGate

open Json

/-- What fields of fields of a value lead to. -/
def Json.Value.at? (v : Value) : List String → Option Value
  | [] => some v
  | name :: names => (v.field? name).bind (·.at? names)

theorem Json.Value.at?_singleton (v : Value) (name : String) : v.at? [name] = v.field? name :=
  Option.bind_fun_some _

theorem Json.Value.at?_concat (v : Value) (names : List String) (name : String) :
    v.at? (names ++ [name]) = (v.at? names).bind (·.field? name) := by
  induction names generalizing v with
  | nil => simp [at?]
  | cons first names ih =>
    rw [List.cons_append, at?, at?, Option.bind_assoc]
    exact congrArg _ (funext ih)

/-- Only records have something inside. -/
theorem Json.Value.at?_concat_eq_some_iff {v found : Value} (names : List String) {name : String} :
    v.at? (names ++ [name]) = some found ↔
      ∃ fields, v.at? names = some (.record fields) ∧ fields.lookup name = some found := by
  rw [at?_concat, Option.bind_eq_some_iff]
  constructor
  · rintro ⟨inner, hinner, hfield⟩
    obtain ⟨fields, rfl⟩ := isRecord_iff.1 (isRecord_of_field? hfield)
    exact ⟨fields, hinner, hfield⟩
  · rintro ⟨fields, hfields, hlookup⟩
    exact ⟨.record fields, hfields, hlookup⟩

theorem Json.Value.exists_fields_of_at? {v found : Value} (names : List String) {name : String}
    (h : v.at? (names ++ [name]) = some found) : ∃ fields, v.at? names = some (.record fields) := by
  obtain ⟨fields, hfields, -⟩ := (at?_concat_eq_some_iff names).1 h
  exact ⟨fields, hfields⟩

namespace Contract

/-- What is checked, and where. A defect of a metric is named by what is checked of the metric. -/
inductive Check where
  | artifact
  | schema
  | dimensions
  | dimension (name : String)
  | metrics (dimension : String)
  | metric (dimension : String) (index : Nat) (defect : MetricDefect)
  | labels (dimension : String)
deriving DecidableEq, Repr

def Violation.check : Violation → Check
  | .noTaxonomy => .artifact
  | .schema _ _ => .schema
  | .dimensions => .dimensions
  | .dimension name => .dimension name
  | .metrics name => .metrics name
  | .metric name index defect => .metric name index defect
  | .labels name _ => .labels name

/-- A metric has the defect. The fields of what is no record are not looked for. -/
def MetricDefect.Holds (c : Contract) (metric : Value) : MetricDefect → Prop
  | .notRecord => ¬ ∃ fields, metric = .record fields
  | .missingField name =>
    (∃ fields, metric = .record fields) ∧ name ∈ c.metricFields.names ∧ metric.field? name = none
  | .label =>
    (∃ fields, metric = .record fields) ∧
      ¬ ∃ s, metric.field? "granularity_label" = some (.text s) ∧ s ≠ ""
  | .value =>
    (∃ fields, metric = .record fields) ∧ ¬ ∃ n, metric.field? "value" = some (.number n)
  | .provenance =>
    (∃ fields, metric = .record fields) ∧
      ¬ ∃ fields, metric.field? "tool_provenance" = some (.record fields)
  | .provenanceField name =>
    ∃ fields, metric.field? "tool_provenance" = some (.record fields) ∧
      name ∈ c.provenanceFields.names ∧ ¬ Populated fields name

/-- Some metric has the label. The empty label is that of none. -/
def Covered (metrics : List Value) (label : String) : Prop :=
  label ≠ "" ∧ ∃ metric ∈ metrics, metric.field? "granularity_label" = some (.text label)

/-- A check of a taxonomy fails. Where something is missing, nothing is checked inside it. -/
def Check.Fails (c : Contract) (taxonomy : Value) : Check → Prop
  | .artifact => False
  | .schema => taxonomy.at? ["schema"] ≠ some (.text c.schema)
  | .dimensions => ¬ ∃ fields, taxonomy.at? ["dimensions"] = some (.record fields)
  | .dimension name =>
    name ∈ c.dimensions.names ∧ (∃ fields, taxonomy.at? ["dimensions"] = some (.record fields)) ∧
      ¬ ∃ fields, taxonomy.at? ["dimensions", name] = some (.record fields)
  | .metrics name =>
    name ∈ c.dimensions.names ∧
      (∃ fields, taxonomy.at? ["dimensions", name] = some (.record fields)) ∧
      ¬ ∃ metrics, taxonomy.at? ["dimensions", name, "metrics"] = some (.list metrics)
  | .metric name index defect =>
    name ∈ c.dimensions.names ∧
      ∃ metrics, taxonomy.at? ["dimensions", name, "metrics"] = some (.list metrics) ∧
        ∃ metric, metrics[index]? = some metric ∧ defect.Holds c metric
  | .labels name =>
    ∃ r, c.dimensions.get? name = some r ∧
      ∃ metrics, taxonomy.at? ["dimensions", name, "metrics"] = some (.list metrics) ∧
        ∃ label ∈ r.labels.names, ¬ Covered metrics label

theorem mem_provenanceDefects_iff {c : Contract} {metric : Value} {defect : MetricDefect} :
    defect ∈ provenanceDefects c metric ↔
      (defect = .provenance ∧
        ¬ ∃ fields, metric.field? "tool_provenance" = some (.record fields)) ∨
      ∃ name, defect = .provenanceField name ∧
        ∃ fields, metric.field? "tool_provenance" = some (.record fields) ∧
          name ∈ c.provenanceFields.names ∧ ¬ Populated fields name := by
  unfold provenanceDefects
  split
  case h_1 fields hfields =>
    simp only [hfields, List.mem_map, List.mem_filter, Bool.not_eq_true', Bool.eq_false_iff,
      ne_eq, isPopulated_iff, Option.some.injEq, Value.record.injEq, exists_eq_left', exists_eq',
      not_true_eq_false, and_false, false_or]
    exact exists_congr fun name => ⟨fun h => ⟨h.2.symm, h.1⟩, fun h => ⟨h.2, h.1.symm⟩⟩
  case h_2 hno =>
    have hne : ∀ fields, metric.field? "tool_provenance" ≠ some (.record fields) := hno
    simp [hne]

theorem mem_metricDefects_iff {c : Contract} {metric : Value} {defect : MetricDefect} :
    defect ∈ metricDefects c metric ↔ defect.Holds c metric := by
  unfold metricDefects
  by_cases hr : metric.isRecord
  · have hrecord := Value.isRecord_iff.1 hr
    have hlabel : (labelOf? metric).isNone ↔
        ¬ ∃ s, metric.field? "granularity_label" = some (.text s) ∧ s ≠ "" := by
      simp only [← labelOf?_eq_some_iff, ← Option.isSome_iff_exists, Option.isNone_iff_eq_none,
        Option.isSome_iff_ne_none, not_not]
    rw [if_pos hr]
    simp only [List.mem_append, List.mem_map, List.mem_filter, mem_provenanceDefects_iff]
    cases defect with
    | notRecord => simp [MetricDefect.Holds, hrecord]
    | missingField name => simp [MetricDefect.Holds, hrecord]
    | label => simp [MetricDefect.Holds, hrecord, hlabel]
    | value => simp [MetricDefect.Holds, hrecord, ← hasNumber_iff]
    | provenance => simp [MetricDefect.Holds, hrecord]
    | provenanceField name => simp [MetricDefect.Holds]
  · have hnone : ¬ ∃ fields, metric = .record fields := fun h => hr (Value.isRecord_iff.2 h)
    have hfield : ∀ name v, metric.field? name ≠ some v := fun name v h =>
      hr (Value.isRecord_of_field? h)
    rw [if_neg hr, List.mem_singleton]
    cases defect with
    | notRecord => simp [MetricDefect.Holds, hnone]
    | missingField name => simp [MetricDefect.Holds, hnone]
    | label => simp [MetricDefect.Holds, hnone]
    | value => simp [MetricDefect.Holds, hnone]
    | provenance => simp [MetricDefect.Holds, hnone]
    | provenanceField name => simp [MetricDefect.Holds, hfield]

theorem mem_checks_metricViolations_iff {c : Contract} {name : String} {start : Nat}
    {metrics : List Value} {k : Check} :
    k ∈ (metricViolations c name start metrics).map Violation.check ↔
      ∃ index metric, metrics[index]? = some metric ∧
        ∃ defect, defect.Holds c metric ∧ k = .metric name (start + index) defect := by
  induction metrics generalizing start with
  | nil => simp [metricViolations]
  | cons metric metrics ih =>
    simp only [metricViolations, List.map_append, List.map_map, List.mem_append, ih, List.mem_map,
      mem_metricDefects_iff, Function.comp_apply, Violation.check]
    constructor
    · rintro (⟨defect, hdefect, rfl⟩ | ⟨index, found, hfound, defect, hdefect, rfl⟩)
      · exact ⟨0, metric, rfl, defect, hdefect, rfl⟩
      · exact ⟨index + 1, found, hfound, defect, hdefect, by rw [Nat.add_right_comm]; rfl⟩
    · rintro ⟨index, found, hfound, defect, hdefect, rfl⟩
      cases index with
      | zero =>
        obtain rfl := Option.some.inj hfound
        exact .inl ⟨defect, hdefect, rfl⟩
      | succ index =>
        exact .inr ⟨index, found, hfound, defect, hdefect, by rw [Nat.add_right_comm]; rfl⟩

/-- The dimension that a check is made in. -/
def Check.dimension? : Check → Option String
  | .artifact | .schema | .dimensions => none
  | .dimension name | .metrics name | .metric name _ _ | .labels name => some name

theorem Check.dimension?_eq_some_iff {k : Check} {name : String} :
    k.dimension? = some name ↔ k = .dimension name ∨ k = .metrics name ∨
      (∃ index defect, k = .metric name index defect) ∨ k = .labels name := by
  cases k with
  | artifact | schema | dimensions => simp [dimension?]
  | dimension | metrics | metric | labels => simp [dimension?]

theorem missingLabels_ne_nil_iff {r : Requirement} {metrics : List Value} :
    missingLabels r metrics ≠ [] ↔ ∃ label ∈ r.labels.names, ¬ Covered metrics label := by
  have hseen : ∀ label, label ∈ metrics.filterMap labelOf? ↔ Covered metrics label := by
    intro label
    simp only [List.mem_filterMap, labelOf?_eq_some_iff, Covered]
    constructor
    · rintro ⟨metric, hm, hl, hne⟩
      exact ⟨hne, metric, hm, hl⟩
    · rintro ⟨hne, metric, hm, hl⟩
      exact ⟨metric, hm, hl, hne⟩
  simp [missingLabels, ← hseen]

section Dimension

variable {c : Contract} {taxonomy : Value} {dimensions : List (String × Value)} {name : String}
  {r : Requirement} {k : Check}

theorem fails_iff_of_absent (hname : name ∈ c.dimensions.names)
    (hall : taxonomy.at? ["dimensions"] = some (.record dimensions))
    (hno : ¬ ∃ fields, taxonomy.at? ["dimensions", name] = some (.record fields)) :
    k.dimension? = some name ∧ k.Fails c taxonomy ↔ k = .dimension name := by
  have hinside : ∀ metrics,
      taxonomy.at? ["dimensions", name, "metrics"] ≠ some (.list metrics) := by
    intro metrics hm
    exact hno (Value.exists_fields_of_at? ["dimensions", name] hm)
  constructor
  · rintro ⟨hk, hfails⟩
    rcases Check.dimension?_eq_some_iff.1 hk with rfl | rfl | ⟨index, defect, rfl⟩ | rfl
    · rfl
    · exact absurd hfails.2.1 hno
    · obtain ⟨-, metrics, hm, -⟩ := hfails
      exact absurd hm (hinside metrics)
    · obtain ⟨-, -, metrics, hm, -⟩ := hfails
      exact absurd hm (hinside metrics)
  · rintro rfl
    exact ⟨rfl, hname, ⟨dimensions, hall⟩, hno⟩

theorem fails_iff_of_unlisted {fields : List (String × Value)} (hname : name ∈ c.dimensions.names)
    (hone : taxonomy.at? ["dimensions", name] = some (.record fields))
    (hno : ¬ ∃ metrics, taxonomy.at? ["dimensions", name, "metrics"] = some (.list metrics)) :
    k.dimension? = some name ∧ k.Fails c taxonomy ↔ k = .metrics name := by
  constructor
  · rintro ⟨hk, hfails⟩
    rcases Check.dimension?_eq_some_iff.1 hk with rfl | rfl | ⟨index, defect, rfl⟩ | rfl
    · exact absurd ⟨fields, hone⟩ hfails.2.2
    · rfl
    · obtain ⟨-, metrics, hm, -⟩ := hfails
      exact absurd ⟨metrics, hm⟩ hno
    · obtain ⟨-, -, metrics, hm, -⟩ := hfails
      exact absurd ⟨metrics, hm⟩ hno
  · rintro rfl
    exact ⟨rfl, hname, ⟨fields, hone⟩, hno⟩

theorem fails_iff_of_listed {metrics : List Value} (hr : c.dimensions.get? name = some r)
    (hlist : taxonomy.at? ["dimensions", name, "metrics"] = some (.list metrics)) :
    k.dimension? = some name ∧ k.Fails c taxonomy ↔
      (∃ index metric, metrics[index]? = some metric ∧
        ∃ defect, defect.Holds c metric ∧ k = .metric name index defect) ∨
      (∃ label ∈ r.labels.names, ¬ Covered metrics label) ∧ k = .labels name := by
  have hname : name ∈ c.dimensions.names := NameMap.mem_names_iff_exists.2 ⟨r, hr⟩
  obtain ⟨fields, hone⟩ := Value.exists_fields_of_at? ["dimensions", name] hlist
  constructor
  · rintro ⟨hk, hfails⟩
    rcases Check.dimension?_eq_some_iff.1 hk with rfl | rfl | ⟨index, defect, rfl⟩ | rfl
    · exact absurd ⟨fields, hone⟩ hfails.2.2
    · exact absurd ⟨metrics, hlist⟩ hfails.2.2
    · obtain ⟨-, found, hfound, metric, hmetric, hdefect⟩ := hfails
      obtain rfl : metrics = found := by simpa [hlist] using hfound
      exact .inl ⟨index, metric, hmetric, defect, hdefect, rfl⟩
    · obtain ⟨q, hq, found, hfound, hlabels⟩ := hfails
      obtain rfl : metrics = found := by simpa [hlist] using hfound
      obtain rfl : r = q := by simpa [hr] using hq
      exact .inr ⟨hlabels, rfl⟩
  · rintro (⟨index, metric, hmetric, defect, hdefect, rfl⟩ | ⟨hlabels, rfl⟩)
    · exact ⟨rfl, hname, metrics, hlist, metric, hmetric, hdefect⟩
    · exact ⟨rfl, r, hr, metrics, hlist, hlabels⟩

/-- In a required dimension exactly the failed checks of that dimension are found. -/
theorem mem_checks_dimensionViolations_iff
    (hall : taxonomy.at? ["dimensions"] = some (.record dimensions))
    (hr : c.dimensions.get? name = some r) :
    k ∈ (dimensionViolations c dimensions name r).map Violation.check ↔
      k.dimension? = some name ∧ k.Fails c taxonomy := by
  have hname : name ∈ c.dimensions.names := NameMap.mem_names_iff_exists.2 ⟨r, hr⟩
  have hone : ∀ v, taxonomy.at? ["dimensions", name] = some v ↔
      dimensions.lookup name = some v := by
    intro v
    refine (Value.at?_concat_eq_some_iff ["dimensions"]).trans ?_
    simp [hall]
  unfold dimensionViolations
  split
  case h_1 fields hfields =>
    have hinside : ∀ v, taxonomy.at? ["dimensions", name, "metrics"] = some v ↔
        fields.lookup "metrics" = some v := by
      intro v
      refine (Value.at?_concat_eq_some_iff ["dimensions", name]).trans ?_
      simp [hone, hfields]
    split
    case h_1 metrics hmetrics =>
      obtain ⟨v, hv, hitems⟩ := Option.bind_eq_some_iff.1 hmetrics
      have hlist := (hinside v).2 hv
      rw [Value.asList?_eq_some_iff.1 hitems] at hlist
      rw [fails_iff_of_listed hr hlist, List.map_append, List.mem_append,
        mem_checks_metricViolations_iff, ← missingLabels_ne_nil_iff]
      simp only [Nat.zero_add, List.isEmpty_iff]
      refine or_congr Iff.rfl ?_
      split
      case isTrue hnil => simp [hnil]
      case isFalse hne => simp [hne, Violation.check]
    case h_2 hnone =>
      have hno : ¬ ∃ metrics,
          taxonomy.at? ["dimensions", name, "metrics"] = some (.list metrics) := by
        rintro ⟨metrics, hm⟩
        simp [(hinside _).1 hm, Value.asList?] at hnone
      rw [fails_iff_of_unlisted hname ((hone _).2 hfields) hno, List.map_singleton,
        List.mem_singleton, Violation.check]
  case h_2 hno =>
    have hno : ¬ ∃ fields, taxonomy.at? ["dimensions", name] = some (.record fields) := by
      rintro ⟨fields, hfields⟩
      exact hno fields ((hone _).1 hfields)
    rw [fails_iff_of_absent hname hall hno, List.map_singleton, List.mem_singleton,
      Violation.check]

end Dimension

theorem nodup_provenanceDefects (c : Contract) (metric : Value) :
    (provenanceDefects c metric).Nodup := by
  unfold provenanceDefects
  split
  case h_1 =>
    exact (c.provenanceFields.nodup_names.filter _).map
      fun _ _ h => MetricDefect.provenanceField.inj h
  case h_2 => exact List.nodup_singleton _

theorem nodup_metricDefects (c : Contract) (metric : Value) : (metricDefects c metric).Nodup := by
  unfold metricDefects
  split
  case isTrue =>
    have hfields : ((c.metricFields.names.filter fun f => (metric.field? f).isNone).map
        MetricDefect.missingField).Nodup :=
      (c.metricFields.nodup_names.filter _).map fun _ _ h => MetricDefect.missingField.inj h
    refine List.nodup_append'.2 ⟨List.nodup_append'.2 ⟨List.nodup_append'.2 ⟨hfields, ?_, ?_⟩,
      ?_, ?_⟩, nodup_provenanceDefects c metric, ?_⟩
    · split <;> simp
    · intro defect hdefect hlabel
      obtain ⟨name, -, rfl⟩ := List.mem_map.1 hdefect
      split at hlabel <;> simp at hlabel
    · split <;> simp
    · intro defect hdefect hvalue
      split at hvalue
      · cases hvalue
      · obtain rfl := List.mem_singleton.1 hvalue
        split at hdefect <;> simp at hdefect
    · intro defect hdefect hprovenance
      rw [mem_provenanceDefects_iff] at hprovenance
      rcases hprovenance with ⟨rfl, -⟩ | ⟨name, rfl, -⟩ <;> simp at hdefect
  case isFalse => exact List.nodup_singleton _

theorem nodup_checks_metricViolations (c : Contract) (name : String) (start : Nat)
    (metrics : List Value) :
    ((metricViolations c name start metrics).map Violation.check).Nodup := by
  induction metrics generalizing start with
  | nil => exact List.nodup_nil
  | cons metric metrics ih =>
    rw [metricViolations, List.map_append, List.map_map]
    refine List.nodup_append'.2 ⟨?_, ih (start + 1), ?_⟩
    · exact (nodup_metricDefects c metric).map fun _ _ h => (Check.metric.inj h).2.2
    · intro k hk hrest
      obtain ⟨defect, -, rfl⟩ := List.mem_map.1 hk
      obtain ⟨index, _, -, _, -, he⟩ := mem_checks_metricViolations_iff.1 hrest
      have hindex := (Check.metric.inj he).2.1
      omega

theorem nodup_checks_dimensionViolations (c : Contract) (dimensions : List (String × Value))
    (name : String) (r : Requirement) :
    ((dimensionViolations c dimensions name r).map Violation.check).Nodup := by
  unfold dimensionViolations
  split
  case h_1 =>
    split
    case h_1 metrics _ =>
      rw [List.map_append]
      refine List.nodup_append'.2 ⟨nodup_checks_metricViolations c name 0 metrics, ?_, ?_⟩
      · split
        · exact List.nodup_nil
        · exact List.nodup_singleton _
      · intro k hk hlabels
        obtain ⟨index, _, -, _, -, rfl⟩ := mem_checks_metricViolations_iff.1 hk
        split at hlabels
        · cases hlabels
        · exact nomatch List.mem_singleton.1 hlabels
    case h_2 => exact List.nodup_singleton _
  case h_2 => exact List.nodup_singleton _

theorem mem_checks_schemaViolations_iff {c : Contract} {taxonomy : Value} {k : Check} :
    k ∈ (schemaViolations c taxonomy).map Violation.check ↔ k = .schema ∧ k.Fails c taxonomy := by
  have hfails : Check.schema.Fails c taxonomy ↔
      ¬ (taxonomy.field? "schema").bind Value.asText? = some c.schema := by
    simp [Check.Fails, Value.at?_singleton, Option.bind_eq_some_iff, Value.asText?_eq_some_iff]
  unfold schemaViolations
  dsimp only
  split
  case isTrue h =>
    simp only [List.map_nil, List.not_mem_nil, false_iff, not_and]
    rintro rfl
    exact fun hschema => hfails.1 hschema h
  case isFalse h =>
    rw [List.map_singleton, List.mem_singleton, Violation.check]
    exact ⟨fun hk => ⟨hk, hk ▸ hfails.2 h⟩, And.left⟩

/-- What fails inside a dimension is asked for, and there is something to look for it in. -/
theorem Check.Fails.required {c : Contract} {taxonomy : Value} {k : Check} {name : String}
    (h : k.Fails c taxonomy) (hk : k.dimension? = some name) :
    name ∈ c.dimensions.names ∧
      ∃ dimensions, taxonomy.at? ["dimensions"] = some (.record dimensions) := by
  have hout : ∀ fields, taxonomy.at? ["dimensions", name] = some (.record fields) →
      ∃ dimensions, taxonomy.at? ["dimensions"] = some (.record dimensions) :=
    fun fields => Value.exists_fields_of_at? ["dimensions"]
  rcases Check.dimension?_eq_some_iff.1 hk with rfl | rfl | ⟨index, defect, rfl⟩ | rfl
  · exact ⟨h.1, h.2.1⟩
  · obtain ⟨hname, ⟨fields, hfields⟩, -⟩ := h
    exact ⟨hname, hout fields hfields⟩
  · obtain ⟨hname, metrics, hmetrics, -⟩ := h
    obtain ⟨fields, hfields⟩ := Value.exists_fields_of_at? ["dimensions", name] hmetrics
    exact ⟨hname, hout fields hfields⟩
  · obtain ⟨r, hr, metrics, hmetrics, -⟩ := h
    obtain ⟨fields, hfields⟩ := Value.exists_fields_of_at? ["dimensions", name] hmetrics
    exact ⟨NameMap.mem_names_iff_exists.2 ⟨r, hr⟩, hout fields hfields⟩

/-- The checks behind the violations are the failed ones. -/
theorem mem_checks_iff {c : Contract} {taxonomy : Value} {k : Check} :
    k ∈ (c.taxonomyViolations taxonomy).map Violation.check ↔ k.Fails c taxonomy := by
  unfold taxonomyViolations
  rw [List.map_append, List.mem_append, mem_checks_schemaViolations_iff]
  split
  case h_1 dimensions hdimensions =>
    obtain ⟨v, hv, hrecord⟩ := Option.bind_eq_some_iff.1 hdimensions
    rw [Value.asRecord?_eq_some_iff.1 hrecord, ← Value.at?_singleton] at hv
    rw [List.map_flatMap, List.mem_flatMap]
    constructor
    · rintro (⟨-, hk⟩ | ⟨e, he, hk⟩)
      · exact hk
      · exact ((mem_checks_dimensionViolations_iff hv (NameMap.mem_entries_iff.1 he)).1 hk).2
    · intro hk
      cases hname : k.dimension? with
      | none =>
        cases k with
        | artifact => exact hk.elim
        | schema => exact .inl ⟨rfl, hk⟩
        | dimensions => exact absurd ⟨dimensions, hv⟩ hk
        | dimension | metrics | metric | labels => cases hname
      | some name =>
        obtain ⟨hmem, -⟩ := hk.required hname
        obtain ⟨r, hr⟩ := NameMap.mem_names_iff_exists.1 hmem
        exact .inr ⟨(name, r), NameMap.mem_entries_iff.2 hr,
          (mem_checks_dimensionViolations_iff hv hr).2 ⟨hname, hk⟩⟩
  case h_2 hnone =>
    have hno : ¬ ∃ dimensions, taxonomy.at? ["dimensions"] = some (.record dimensions) := by
      rintro ⟨dimensions, hd⟩
      rw [Value.at?_singleton] at hd
      simp [hd, Value.asRecord?] at hnone
    rw [List.map_singleton, List.mem_singleton, Violation.check]
    constructor
    · rintro (⟨-, hk⟩ | rfl)
      · exact hk
      · exact hno
    · intro hk
      cases hname : k.dimension? with
      | none =>
        cases k with
        | artifact => exact hk.elim
        | schema => exact .inl ⟨rfl, hk⟩
        | dimensions => exact .inr rfl
        | dimension | metrics | metric | labels => cases hname
      | some name => exact absurd (hk.required hname).2 hno

theorem nodup_checks (c : Contract) (taxonomy : Value) :
    ((c.taxonomyViolations taxonomy).map Violation.check).Nodup := by
  have hschema : ((schemaViolations c taxonomy).map Violation.check).Nodup := by
    unfold schemaViolations
    dsimp only
    split <;> simp
  unfold taxonomyViolations
  rw [List.map_append]
  split
  case h_1 dimensions hdimensions =>
    obtain ⟨v, hv, hrecord⟩ := Option.bind_eq_some_iff.1 hdimensions
    rw [Value.asRecord?_eq_some_iff.1 hrecord, ← Value.at?_singleton] at hv
    have hname : ∀ e ∈ c.dimensions.entries, ∀ k : Check,
        k ∈ (dimensionViolations c dimensions e.1 e.2).map Violation.check →
          k.dimension? = some e.1 := fun e he k hk =>
      ((mem_checks_dimensionViolations_iff hv (NameMap.mem_entries_iff.1 he)).1 hk).1
    rw [List.map_flatMap]
    -- Checks of two dimensions are told apart by the dimension, and that of the schema has none.
    refine List.nodup_append'.2 ⟨hschema, List.nodup_flatMap.2
      ⟨fun e _ => nodup_checks_dimensionViolations c _ _ _, ?_⟩, ?_⟩
    · refine c.dimensions.ascending.imp_of_mem fun {a b} ha hb hlt k hka hkb => ?_
      have he : a.1 = b.1 := Option.some.inj ((hname a ha k hka).symm.trans (hname b hb k hkb))
      exact String.lt_irrefl _ (he ▸ hlt)
    · intro k hk hrest
      obtain ⟨rfl, -⟩ := mem_checks_schemaViolations_iff.1 hk
      obtain ⟨e, he, hmem⟩ := List.mem_flatMap.1 hrest
      exact nomatch hname e he _ hmem
  case h_2 =>
    refine List.nodup_append'.2 ⟨hschema, List.nodup_singleton _, ?_⟩
    intro k hk hrest
    obtain ⟨rfl, -⟩ := mem_checks_schemaViolations_iff.1 hk
    exact nomatch List.mem_singleton.1 hrest

/-- There are as many violations as failed checks. -/
theorem encard_fails (c : Contract) (taxonomy : Value) :
    {k : Check | k.Fails c taxonomy}.encard = (c.taxonomyViolations taxonomy).length := by
  have hset : {k : Check | k.Fails c taxonomy} =
      ((c.taxonomyViolations taxonomy).map Violation.check).toFinset := by
    ext k
    simp only [Set.mem_ofPred_eq, List.coe_toFinset, mem_checks_iff]
  rw [hset, Set.encard_coe_eq_coe_finsetCard, List.toFinset_card_of_nodup (nodup_checks c taxonomy),
    List.length_map]

/-- Two dimensions, one with two labels, and two fields of provenance. -/
def detailedContract : Contract where
  schema := "taxonomy.v2"
  dimensions := .ofList [("loc", ⟨.ofNames ["raw", "logical"]⟩), ("open-issues", {})]
  metricFields := .ofNames ["metric_key", "unit"]
  provenanceFields := .ofNames ["source", "command_signature"]

/-- A document of an older schema with one dimension, in which the second metric is no record and
the third one lacks everything but a label and a blank source. -/
def defectiveTaxonomy : Value :=
  .record [("schema", .text "taxonomy.v1"),
    ("dimensions", .record [("loc", .record [("metrics", .list [
      .record [("metric_key", .text "loc"), ("unit", .text "lines"),
        ("granularity_label", .text "raw"), ("value", .nat 7),
        ("tool_provenance", .record [("source", .text "src"), ("command_signature", .text "c")])],
      .nat 3,
      .record [("granularity_label", .text "physical"),
        ("tool_provenance", .record [("source", .text " ")])]])])])]

example : (detailedContract.taxonomyViolations defectiveTaxonomy).map Violation.check =
    [.schema, .metric "loc" 1 .notRecord, .metric "loc" 2 (.missingField "metric_key"),
      .metric "loc" 2 (.missingField "unit"), .metric "loc" 2 .value,
      .metric "loc" 2 (.provenanceField "command_signature"),
      .metric "loc" 2 (.provenanceField "source"), .labels "loc", .dimension "open-issues"] := by
  decide

end Contract

end ReleaseGate
