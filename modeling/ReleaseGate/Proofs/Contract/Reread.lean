import ReleaseGate.Proofs.Contract.Satisfied
import ReleaseGate.Proofs.Json.Reread

/-!
# Contracts and documents read back

A contract looks at texts, at the shape of values and at which fields there are. All of that is kept
when a document is written and read again.
-/
namespace ReleaseGate

open Json

theorem Json.Value.field?_reread {room : ℕ} {v : Value} (h : v.Readable room) (name : String) :
    v.reread.field? name = (v.field? name).map Value.reread := by
  cases h with
  | null => simp [reread, field?, asRecord?]
  | bool => simp [reread, field?, asRecord?]
  | number => simp [reread, field?, asRecord?]
  | text => simp [reread, field?, asRecord?]
  | list => simp [reread, field?, asRecord?]
  | @record room fields hnames h =>
    rw [reread]
    exact lookup_reread hnames name

theorem Json.Value.readable_of_field? {room : ℕ} {v w : Value} {name : String}
    (h : v.Readable room) (hf : v.field? name = some w) : ∃ room, w.Readable room := by
  cases h with
  | null => simp [field?, asRecord?] at hf
  | bool => simp [field?, asRecord?] at hf
  | number => simp [field?, asRecord?] at hf
  | text => simp [field?, asRecord?] at hf
  | list => simp [field?, asRecord?] at hf
  | @record room fields hnames h =>
    have hlookup : fields.lookup name = some w := hf
    exact ⟨room, h (name, w) (NameMap.mem_of_lookup hlookup)⟩

/-- A record is read back as a record with the same fields. -/
theorem Json.Value.reread_record {room : ℕ} {fields : List (String × Value)}
    (h : (Value.record fields).Readable room) :
    ∃ found, (Value.record fields).reread = .record found ∧
      ∀ name, found.lookup name = (fields.lookup name).map Value.reread := by
  have hfield := field?_reread h
  rw [reread] at hfield ⊢
  exact ⟨_, rfl, hfield⟩

theorem Json.Value.readable_of_lookup {room : ℕ} {fields : List (String × Value)} {w : Value}
    {name : String} (h : (Value.record fields).Readable room) (hf : fields.lookup name = some w) :
    ∃ room, w.Readable room :=
  readable_of_field? h hf

namespace Contract

theorem MetricMeets.reread {c : Contract} {room : ℕ} {metric : Value}
    (hr : metric.Readable room) (h : MetricMeets c metric) : MetricMeets c metric.reread := by
  have hfield := Value.field?_reread hr
  refine ⟨?_, fun name hname => ?_, ?_, ?_, ?_⟩
  · obtain ⟨fields, rfl⟩ := h.record
    obtain ⟨found, hfound, -⟩ := Value.reread_record hr
    exact ⟨found, hfound⟩
  · obtain ⟨v, hv⟩ := h.fields name hname
    exact ⟨v.reread, by rw [hfield, hv, Option.map_some]⟩
  · obtain ⟨s, hs, hne⟩ := h.label
    exact ⟨s, by rw [hfield, hs, Option.map_some, Value.reread], hne⟩
  · obtain ⟨n, hn⟩ := h.value
    exact ⟨_, by rw [hfield, hn, Option.map_some, Value.reread]⟩
  · obtain ⟨fields, hfields, hpopulated⟩ := h.provenance
    obtain ⟨inner, hprovenance⟩ := Value.readable_of_field? hr hfields
    obtain ⟨found, hfound, hlookup⟩ := Value.reread_record hprovenance
    refine ⟨found, by rw [hfield, hfields, Option.map_some, hfound], fun name hname => ?_⟩
    obtain ⟨s, hs, hnonblank⟩ := hpopulated name hname
    exact ⟨s, by rw [hlookup, hs, Option.map_some, Value.reread], hnonblank⟩

theorem MetricsMeet.reread {c : Contract} {r : Requirement} {room : ℕ} {metrics : List Value}
    (hr : ∀ metric ∈ metrics, metric.Readable room) (h : MetricsMeet c r metrics) :
    MetricsMeet c r (rereadItems metrics) := by
  rw [rereadItems_eq_map]
  refine ⟨fun metric hm => ?_, fun label hlabel => ?_⟩
  · obtain ⟨original, ho, rfl⟩ := List.mem_map.1 hm
    exact (h.each original ho).reread (hr original ho)
  · obtain ⟨metric, hm, hl⟩ := h.covered label hlabel
    refine ⟨metric.reread, List.mem_map_of_mem hm, ?_⟩
    rw [Value.field?_reread (hr metric hm), hl, Option.map_some, Value.reread]

theorem TaxonomyMeets.reread {c : Contract} {room : ℕ} {taxonomy : Value}
    (hr : taxonomy.Readable room) (h : TaxonomyMeets c taxonomy) :
    TaxonomyMeets c taxonomy.reread := by
  obtain ⟨hschema, dimensions, hdimensions, hall⟩ := h
  obtain ⟨inner, hinner⟩ := Value.readable_of_field? hr hdimensions
  obtain ⟨found, hfound, hlookup⟩ := Value.reread_record hinner
  refine ⟨by rw [Value.field?_reread hr, hschema, Option.map_some, Value.reread], found,
    by rw [Value.field?_reread hr, hdimensions, Option.map_some, hfound], fun name r hname => ?_⟩
  obtain ⟨fields, metrics, hfields, hmetrics, hmeet⟩ := hall name r hname
  obtain ⟨_, hdimension⟩ := Value.readable_of_lookup hinner hfields
  obtain ⟨foundFields, hfoundFields, hlookupFields⟩ := Value.reread_record hdimension
  obtain ⟨_, hlist⟩ := Value.readable_of_lookup hdimension hmetrics
  refine ⟨foundFields, rereadItems metrics,
    by rw [hlookup, hfields, Option.map_some, hfoundFields],
    by rw [hlookupFields, hmetrics, Option.map_some, Value.reread], ?_⟩
  cases hlist with
  | list heach => exact hmeet.reread heach

/-- Whatever meets a contract still meets it when it has been written and read again. -/
theorem ArtifactMeets.reread {c : Contract} {room : ℕ} {artifact : Value}
    (hr : artifact.Readable room) (h : ArtifactMeets c artifact) :
    ArtifactMeets c artifact.reread := by
  obtain ⟨taxonomy, hfield, hmeets⟩ := h
  obtain ⟨inner, hinner⟩ := Value.readable_of_field? hr hfield
  obtain ⟨found, hfound, -⟩ := Value.reread_record hinner
  refine ⟨found, by rw [Value.field?_reread hr, hfield, Option.map_some, hfound], ?_⟩
  rw [← hfound]
  exact hmeets.reread hinner

end Contract

end ReleaseGate
