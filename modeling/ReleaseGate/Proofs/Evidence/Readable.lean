import ReleaseGate.Evidence.Generate
import ReleaseGate.Proofs.Evidence.PassRate
import ReleaseGate.Proofs.Evidence.Verdict
import ReleaseGate.Proofs.Json.InRange
import ReleaseGate.Proofs.Json.Reread

/-!
# Evidence documents can be read back

No field name comes twice in an evidence document, its nesting is shallow, and every number in it
is a word or a moderate pass rate.
-/
namespace ReleaseGate

open Json

theorem Json.Value.readable_word (room : ℕ) (n : UInt64) : (Value.word n).Readable room := by
  have hle : n.toNat ≤ maxWord := by
    have hlt := n.toNat_lt
    have hmax : maxWord = 2 ^ 64 - 1 := rfl
    omega
  apply Value.Readable.number
  rw [toNumber?_nat hle]
  rfl

theorem Json.Value.readable_texts (room : ℕ) (names : List String) :
    (Value.list (names.map .text)).Readable (room + 1) := by
  apply Value.Readable.list
  intro v hv
  obtain ⟨name, -, rfl⟩ := List.mem_map.1 hv
  exact .text room name

/-- A map with readable values is readable, since its names differ. -/
theorem Json.Value.readable_entries {room : ℕ} (m : NameMap α) {toValue : α → Value}
    (h : ∀ a, (toValue a).Readable room) :
    (Value.record (m.entries.map fun e => (e.1, toValue e.2))).Readable (room + 1) := by
  apply Value.Readable.record
  · have hnames : (m.entries.map fun e => (e.1, toValue e.2)).map (·.1) = m.entries.map (·.1) := by
      simp
    rw [hnames]
    exact m.nodup_names
  · intro e he
    obtain ⟨entry, -, rfl⟩ := List.mem_map.1 he
    exact h entry.2

namespace Taxonomy

theorem Provenance.readable_toValue (room : ℕ) (p : Provenance) : p.toValue.Readable (room + 1) :=
  Value.readable_record (by simp) ⟨.text _ _, .text _ _⟩

theorem Metric.readable_toValue (room : ℕ) (m : Metric) : m.toValue.Readable (room + 2) :=
  Value.readable_record (by simp)
    ⟨.text _ _, .text _ _, Value.readable_word _ _, .text _ _, m.provenance.readable_toValue room⟩

theorem Dimension.readable_toValue (room : ℕ) (d : Dimension) : d.toValue.Readable (room + 4) := by
  refine Value.readable_record (by simp) ⟨.text _ _, .list fun v hv => ?_⟩
  obtain ⟨metric, -, rfl⟩ := List.mem_map.1 hv
  exact metric.readable_toValue room

theorem readable_toValue (room : ℕ) (t : Taxonomy) : t.toValue.Readable (room + 6) :=
  Value.readable_record (by simp)
    ⟨.text _ _, .text _ _, Value.readable_entries t.dimensions fun d => d.readable_toValue room⟩

end Taxonomy

namespace Suite

theorem Result.readable_toValue (room : ℕ) (r : Result) : r.toValue.Readable (room + 1) :=
  Value.readable_record (by simp)
    ⟨.text _ _, Value.readable_word _ _, Value.readable_word _ _, Value.readable_word _ _,
      Value.readable_word _ _⟩

theorem readable_resultsValue (room : ℕ) (results : Results) :
    (resultsValue results).Readable (room + 2) :=
  Value.readable_entries results fun r => r.readable_toValue room

end Suite

namespace Evidence

theorem Summary.readable_toValue (room : ℕ) {s : Summary} (h : s.passRate.toRat < 2 ^ 200) :
    s.toValue.Readable (room + 2) :=
  Value.readable_record (by simp)
    ⟨Value.readable_word _ _, Value.readable_word _ _, Value.readable_texts _ _,
      Value.readable_word _ _, Value.readable_word _ _, Value.readable_word _ _,
      .number _ (isSome_toNumber?_real h)⟩

theorem readable_toValue (room : ℕ) {e : Evidence} (h : e.summary.passRate.toRat < 2 ^ 200) :
    e.toValue.Readable (room + 7) :=
  Value.readable_record (by simp [Contract.taxonomyKey])
    ⟨.text _ _, .text _ _, .text _ _, Summary.readable_toValue _ h, Suite.readable_resultsValue _ _,
      e.taxonomy.readable_toValue room⟩

end Evidence

end ReleaseGate
