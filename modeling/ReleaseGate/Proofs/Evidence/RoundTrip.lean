import ReleaseGate.Proofs.Evidence.Store
import ReleaseGate.Proofs.Evidence.Totals
import ReleaseGate.Proofs.Json.Decode
import ReleaseGate.Proofs.Json.Plain
import ReleaseGate.Proofs.Time.Instant

/-!
# Evidence is read back as it was

Every part of an evidence document is decoded from what it is written as. For the pass rate this
rests on the totals: no more tests have passed than there are.
-/
namespace ReleaseGate

open Json

namespace Taxonomy

theorem Provenance.decodes (p : Provenance) :
    Decodes (Tree.toRecord Provenance.fields {}) p.toValue p :=
  decodes_record (by simp [fields, RecordField.needed])
    (.needed (decodes_text p.source) (.needed (decodes_text p.commandSignature) (.nil p)))

theorem Metric.decodes (m : Metric) : Decodes (Tree.toRecord Metric.fields {}) m.toValue m :=
  decodes_record (by simp [fields, RecordField.needed])
    (.needed (decodes_text m.key) (.needed (decodes_text m.label) (.needed (decodes_word m.value)
      (.needed (decodes_text m.unit) (.needed m.provenance.decodes (.nil m))))))

theorem ComparisonMode.lookup_names (mode : ComparisonMode) :
    names.lookup mode.name = some mode := by
  cases mode
  rfl

theorem Dimension.decodes (d : Dimension) :
    Decodes (Tree.toRecord Dimension.fields {}) d.toValue d :=
  decodes_record (by simp [fields, RecordField.needed])
    (.needed (decodes_choice d.comparisonMode.lookup_names)
      (.needed (decodes_list Metric.decodes d.metrics) (.nil d)))

theorem decodes (t : Taxonomy) : Decodes (Tree.toRecord fields {}) t.toValue t :=
  decodes_record (by simp [fields, RecordField.needed])
    (.needed (decodes_text t.schema) (.needed (decodes_text t.contractRef)
      (.needed (decodes_nameMap Dimension.decodes t.dimensions) (.nil t))))

end Taxonomy

namespace Suite

theorem Status.lookup_names (status : Status) : names.lookup status.name = some status := by
  cases status <;> rfl

theorem Result.decodes (r : Result) : Decodes (Tree.toRecord Result.fields {}) r.toValue r :=
  decodes_record (by simp [fields, RecordField.needed])
    (.needed (decodes_choice r.status.lookup_names) (.needed (decodes_word r.passed)
      (.needed (decodes_word r.failed) (.needed (decodes_word r.ignored)
        (.needed (decodes_word r.total) (.nil r))))))

end Suite

namespace Evidence

theorem Verdict.lookup_names (v : Verdict) : names.lookup v.name = some v := by
  cases v <;> rfl

/-- The pass rate is the only number that not every value of its type is read back from. -/
theorem Summary.decodes {s : Summary}
    (h : (Number.real s.passRate).literal.toNumber? = some (.real s.passRate)) :
    Decodes (Tree.toRecord Summary.fields {}) s.toValue s :=
  decodes_record (by simp [fields, RecordField.needed])
    (.needed (decodes_word s.suitesExpected) (.needed (decodes_word s.suitesFound)
      (.needed (decodes_list decodes_text s.suitesMissing)
        (.needed (decodes_word s.totalPassed) (.needed (decodes_word s.totalFailed)
          (.needed (decodes_word s.totalTests) (.needed (decodes_real h) (.nil s))))))))

theorem decodes_instant {t : Time.Instant} (h : t.IsProper) :
    Decodes readInstant (.text t.text) t := by
  have htext : Tree.toText (Value.text t.text).tree = .ok t.text := decodes_text t.text
  have hread := Time.Instant.read?_text h
  generalize t.text = s at htext hread
  simp only [Decodes, readInstant, htext, bind, Except.bind, hread, pure, Except.pure]

theorem decodes {e : Evidence} (hinstant : e.generatedAt.IsProper)
    (hrate : (Number.real e.summary.passRate).literal.toNumber? = some (.real e.summary.passRate)) :
    Decodes (Tree.toRecord fields {}) e.toValue e :=
  decodes_record (by simp [fields, RecordField.needed, Contract.taxonomyKey])
    (.needed (decodes_text e.schema) (.needed (decodes_instant hinstant)
      (.needed (decodes_choice e.verdict.lookup_names) (.needed (Summary.decodes hrate)
        (.needed (decodes_nameMap Suite.Result.decodes e.suites)
          (.needed e.taxonomy.decodes (.nil e)))))))

theorem read_text {e : Evidence} (hinstant : e.generatedAt.IsProper)
    (hrate : (Number.real e.summary.passRate).literal.toNumber? = some (.real e.summary.passRate)) :
    read (Text.Utf8.encode e.text.toList) = .ok e := by
  have htext : e.text.toList = pretty 0 e.toValue ++ ['\n'] := by
    simp [text, Value.prettyText]
  have hdecodes := decodes hinstant hrate
  rw [Decodes] at hdecodes
  rw [htext, read, decodeDocument, ofBytes_pretty, hdecodes]
  rfl

/-- Evidence that is made of suite results whose totals are the sums of their counts is read back
from what is stored of it, and what is read back is written as the same bytes. -/
theorem read_assemble {suites : Suite.Results} (expected : List String) (counts : Counts)
    (sources : Sources) {now : Time.Instant}
    (hsuites : ∀ r ∈ suites.values, ∃ status passed failed ignored,
      Suite.Result.ofCounts? status passed failed ignored = some r) (hnow : now.IsProper) :
    let e := assemble suites expected (Taxonomy.assemble counts sources) now
    (∀ fs path stored, store fs path e = (stored, none) →
        stored.content? path = some (Text.Utf8.encode e.text.toList)) ∧
      read (Text.Utf8.encode e.text.toList) = .ok e ∧
      ∀ again, read (Text.Utf8.encode e.text.toList) = .ok again →
        Text.Utf8.encode again.text.toList = Text.Utf8.encode e.text.toList := by
  intro e
  have hle : total (·.passed) suites ≤ total (·.total) suites := by
    refine total_le fun r hr => ?_
    obtain ⟨status, passed, failed, ignored, hcounts⟩ := hsuites r hr
    exact Suite.Result.passed_le_total (Suite.Result.toNat_total_of_ofCounts? hcounts)
  obtain ⟨n, hn, hrate⟩ := exists_hundredths hle
  have hread : read (Text.Utf8.encode e.text.toList) = .ok e :=
    read_text hnow (toNumber?_hundredths hn hrate)
  refine ⟨fun fs path stored => content?_of_store, hread, fun again hagain => ?_⟩
  obtain rfl : e = again := Except.ok.inj (hread.symm.trans hagain)
  rfl

/-- Two suites. One has run as many tests as can be counted, and has a name that is escaped. -/
def fullSuites : Suite.Results :=
  NameMap.ofList [("fuzz \"\x00\"", ⟨.pass, 18446744073709551615, 0, 0, 18446744073709551615⟩),
    ("conformance", ⟨.fail, 1, 2, 0, 3⟩)]

/-- One more suite is missing, and the clock shows a leap second. -/
def fullEvidence : Evidence :=
  assemble fullSuites ["conformance", "missing\n"] (Taxonomy.assemble {} { srcRoot := "\u2028" })
    ⟨-1, 1999999999⟩

theorem read_assemble_fullEvidence :
    (store { root := .folder [], workingPlace := [] } "out/evidence.json"
          fullEvidence).1.content? "out/evidence.json" =
        some (Text.Utf8.encode fullEvidence.text.toList) ∧
      read (Text.Utf8.encode fullEvidence.text.toList) = .ok fullEvidence := by
  have hvalues : fullSuites.values =
      [⟨.fail, 1, 2, 0, 3⟩, ⟨.pass, 18446744073709551615, 0, 0, 18446744073709551615⟩] := by
    decide
  have hsuites : ∀ r ∈ fullSuites.values, ∃ status passed failed ignored,
      Suite.Result.ofCounts? status passed failed ignored = some r := by
    rw [hvalues]
    intro r hr
    rcases List.mem_pair.1 hr with rfl | rfl
    · exact ⟨.fail, 1, 2, 0, by decide⟩
    · exact ⟨.pass, 18446744073709551615, 0, 0, by decide⟩
  have hnow : Time.Instant.IsProper ⟨-1, 1999999999⟩ :=
    ⟨by decide +kernel, by decide, fun _ => by decide⟩
  obtain ⟨hstored, hread, -⟩ := read_assemble ["conformance", "missing\n"] {}
    { srcRoot := "\u2028" } hsuites hnow
  exact ⟨hstored _ _ _ (Prod.ext rfl (by decide +kernel)), hread⟩

end Evidence

end ReleaseGate
