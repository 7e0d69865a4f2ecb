import ReleaseGate.Proofs.Contract.Failed

/-!
# Weaker contracts

A contract that requires less has no more to report: each check that fails under it fails under the
stronger one.
-/
namespace ReleaseGate.Contract

open Json

/-- Both contracts require one schema, and whatever else the first requires the second does too. -/
structure IsWeaker (c d : Contract) : Prop where
  schema : c.schema = d.schema
  dimensions : ∀ e ∈ c.dimensions.entries, ∃ q, d.dimensions.get? e.1 = some q ∧
    ∀ label ∈ e.2.labels.names, label ∈ q.labels.names
  metricFields : ∀ field ∈ c.metricFields.names, field ∈ d.metricFields.names
  provenanceFields : ∀ field ∈ c.provenanceFields.names, field ∈ d.provenanceFields.names

variable {c d : Contract}

theorem MetricDefect.Holds.of_isWeaker (h : c.IsWeaker d) {metric : Value} {defect : MetricDefect}
    (hdefect : defect.Holds c metric) : defect.Holds d metric := by
  cases defect with
  | notRecord | label | value | provenance => exact hdefect
  | missingField name =>
    obtain ⟨hrecord, hname, hnone⟩ := hdefect
    exact ⟨hrecord, h.metricFields name hname, hnone⟩
  | provenanceField name =>
    obtain ⟨fields, hfields, hname, hempty⟩ := hdefect
    exact ⟨fields, hfields, h.provenanceFields name hname, hempty⟩

theorem IsWeaker.get? (h : c.IsWeaker d) {name : String} {r : Requirement}
    (hr : c.dimensions.get? name = some r) :
    ∃ q, d.dimensions.get? name = some q ∧ ∀ label ∈ r.labels.names, label ∈ q.labels.names :=
  h.dimensions (name, r) (NameMap.mem_entries_iff.2 hr)

theorem IsWeaker.mem_names (h : c.IsWeaker d) {name : String} (hname : name ∈ c.dimensions.names) :
    name ∈ d.dimensions.names := by
  obtain ⟨r, hr⟩ := NameMap.mem_names_iff_exists.1 hname
  obtain ⟨q, hq, -⟩ := h.get? hr
  exact NameMap.mem_names_iff_exists.2 ⟨q, hq⟩

/-- A missing label is one failed check, however many labels are missing: the stronger contract
misses the same label at the same place. -/
theorem Check.Fails.of_isWeaker (h : c.IsWeaker d) {taxonomy : Value} {k : Check}
    (hk : k.Fails c taxonomy) : k.Fails d taxonomy := by
  cases k with
  | artifact | dimensions => exact hk
  | schema =>
    rw [Check.Fails, ← h.schema]
    exact hk
  | dimension | metrics => exact ⟨h.mem_names hk.1, hk.2⟩
  | metric =>
    obtain ⟨hname, metrics, hmetrics, metric, hmetric, hdefect⟩ := hk
    exact ⟨h.mem_names hname, metrics, hmetrics, metric, hmetric, hdefect.of_isWeaker h⟩
  | labels =>
    obtain ⟨r, hr, metrics, hmetrics, label, hlabel, huncovered⟩ := hk
    obtain ⟨q, hq, hlabels⟩ := h.get? hr
    exact ⟨q, hq, metrics, hmetrics, label, hlabels label hlabel, huncovered⟩

/-- A weaker contract reports no more on any document, so what the stronger one accepts is
accepted. -/
theorem length_taxonomyReports_le (h : c.IsWeaker d) (root : String) (taxonomy : Value) :
    (c.taxonomyReports root taxonomy).length ≤ (d.taxonomyReports root taxonomy).length ∧
      (d.taxonomyReports root taxonomy = [] → c.taxonomyReports root taxonomy = []) := by
  have hsubset : {k : Check | k.Fails c taxonomy} ⊆ {k : Check | k.Fails d taxonomy} :=
    fun k hk => hk.of_isWeaker h
  have hle : (c.taxonomyReports root taxonomy).length ≤
      (d.taxonomyReports root taxonomy).length := by
    have hcard := Set.encard_le_encard hsubset
    rw [encard_fails, encard_fails] at hcard
    simpa [taxonomyReports] using hcard
  refine ⟨hle, fun hnil => ?_⟩
  rw [hnil] at hle
  exact List.length_eq_zero_iff.1 (Nat.le_zero.1 hle)

/-- Less than the detailed contract requires: one dimension with one label, and one field. -/
def plainContract : Contract where
  schema := "taxonomy.v2"
  dimensions := .ofList [("loc", ⟨.ofNames ["logical"]⟩)]
  metricFields := .ofNames ["unit"]

theorem length_taxonomyReports_le_plainContract :
    plainContract.IsWeaker detailedContract ∧
      (plainContract.taxonomyReports "t" defectiveTaxonomy).length ≤
        (detailedContract.taxonomyReports "t" defectiveTaxonomy).length := by
  have hweaker : plainContract.IsWeaker detailedContract :=
    { schema := rfl
      dimensions := by
        intro e he
        obtain rfl : e = ("loc", ⟨.ofNames ["logical"]⟩) := List.mem_singleton.1 he
        exact ⟨⟨.ofNames ["raw", "logical"]⟩, by decide, by decide⟩
      metricFields := by decide
      provenanceFields := by decide }
  exact ⟨hweaker, (length_taxonomyReports_le hweaker "t" defectiveTaxonomy).1⟩

end ReleaseGate.Contract
