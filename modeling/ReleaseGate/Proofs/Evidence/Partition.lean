import ReleaseGate.Proofs.Evidence.Verdict

/-!
# Found and missing suites

Every expected suite is either found or missing, and none is both. Only expected suites are ever
found, and no suite is expected twice, so the two kinds add up to the expected ones.
-/
namespace ReleaseGate.Evidence

open Files Suite

theorem mem_missing_iff {expected : List String} {suites : Results} {name : String} :
    name ∈ missing expected suites ↔ name ∈ expected ∧ name ∉ suites.names := by
  simp [missing, NameMap.mem_names_iff]

/-- No line of a log adds a suite that is not expected. -/
theorem mem_expected_of_mem_names {expected : List String} {log : List Char} {name : String}
    (h : name ∈ (readLog expected log).names) : name ∈ expected := by
  obtain ⟨r, hr⟩ := NameMap.mem_names_iff_exists.1 h
  exact (exists_credits_of_get?_readLog hr).1

/-- The suites found are, up to their order, the expected ones that are not missing. -/
theorem names_perm_filter {expected : List String} {suites : Results} (hnodup : expected.Nodup)
    (hexpected : ∀ name ∈ suites.names, name ∈ expected) :
    suites.names.Perm (expected.filter fun name => suites.contains name) := by
  apply (List.perm_ext_iff_of_nodup suites.nodup_names (hnodup.filter _)).2
  intro name
  rw [List.mem_filter, ← NameMap.mem_names_iff]
  constructor
  · intro h
    exact ⟨hexpected name h, h⟩
  · rintro ⟨-, h⟩
    exact h

theorem size_add_length_missing {expected : List String} {suites : Results}
    (hnodup : expected.Nodup) (hexpected : ∀ name ∈ suites.names, name ∈ expected) :
    suites.size + (missing expected suites).length = expected.length := by
  calc suites.size + (missing expected suites).length
      = suites.names.length + (missing expected suites).length := by
        rw [NameMap.size, NameMap.names, List.length_map]
    _ = (expected.filter fun name => suites.contains name).length +
          (missing expected suites).length := by
        rw [(names_perm_filter hnodup hexpected).length_eq]
    _ = expected.length := (List.length_eq_length_filter_add fun name => suites.contains name).symm

theorem verdictOf_eq_pass_iff_missing {expected : List String} {suites : Results} :
    verdictOf expected suites = .pass ↔
      missing expected suites = [] ∧ ∀ name r, suites.get? name = some r → r.status = .pass := by
  have hmissing : missing expected suites = [] ↔ ∀ s ∈ expected, ∃ r, suites.get? s = some r := by
    simp [missing, List.filter_eq_nil_iff, ← NameMap.contains_iff]
  rw [verdictOf_eq_pass_iff, hmissing]
  exact and_comm

/-- The suites in generated evidence are exactly the expected ones that are not missing. The missing
ones stand in the order in which they are expected, none twice, and both together are as many as are
expected. The verdict passes if none is missing and all that were found have passed. -/
theorem suites_partition_of_generate {fs : FileSystem} {root : Path} {explicit : Option Path}
    {config : Config} {log : List Char} {now : Time.Instant} {e : Evidence}
    (hload : Config.load fs root explicit = .ok config)
    (hgenerate : generate fs root config log now = .ok e) :
    (∀ name, name ∈ e.suites.names ↔ name ∈ config.expected ∧ name ∉ e.summary.suitesMissing) ∧
      e.summary.suitesMissing.Sublist config.expected ∧ e.summary.suitesMissing.Nodup ∧
      e.suites.size + e.summary.suitesMissing.length = config.expected.length ∧
      e.summary.suitesFound + e.summary.suitesMissing.length.toUInt64 = e.summary.suitesExpected ∧
      (config.expected.length < UInt64.size →
        e.summary.suitesFound.toNat = e.suites.size ∧
          e.summary.suitesExpected.toNat = config.expected.length) ∧
      (e.verdict = .pass ↔ e.summary.suitesMissing = [] ∧
        ∀ name r, e.suites.get? name = some r → r.status = .pass) := by
  obtain ⟨-, -, hnodup⟩ := Config.defect?_eq_none_iff.1 (Config.defect?_of_load hload)
  obtain ⟨taxonomy, -, rfl⟩ := generate_eq_ok_iff.1 hgenerate
  have hexpected : ∀ name ∈ (readLog config.expected log).names, name ∈ config.expected :=
    fun name h => mem_expected_of_mem_names h
  have hsublist : (missing config.expected (readLog config.expected log)).Sublist
      config.expected := List.filter_sublist
  have hsize := size_add_length_missing hnodup hexpected
  refine ⟨fun name => ?_, hsublist, hnodup.sublist hsublist, hsize, ?_, fun hfits => ⟨?_, ?_⟩,
    verdictOf_eq_pass_iff_missing⟩
  · change name ∈ (readLog config.expected log).names ↔
      name ∈ config.expected ∧ name ∉ missing config.expected (readLog config.expected log)
    rw [mem_missing_iff, not_and, not_not]
    constructor
    · intro h
      exact ⟨hexpected name h, fun _ => h⟩
    · rintro ⟨h, hfound⟩
      exact hfound h
  · change (readLog config.expected log).size.toUInt64 + _ = config.expected.length.toUInt64
    rw [← hsize]
    exact UInt64.ofNat_add _ _ |>.symm
  · exact UInt64.toNat_ofNat_of_lt' (by omega)
  · exact UInt64.toNat_ofNat_of_lt' hfits

/-- One suite fails and the other one is announced without a summary. -/
def unfinishedLog : List Char :=
  "Running tests/b.rs (b-1)\ntest result: FAILED. 1 passed; 2 failed; 0 ignored\nRunning a\n".toList

theorem suites_partition_of_generate_twoSuites :
    ∃ config e, Config.load twoSuites "." none = .ok config ∧
      generate twoSuites "." config unfinishedLog {} = .ok e ∧
      config.expected = ["a", "b"] ∧ e.suites.names = ["b"] ∧ e.summary.suitesMissing = ["a"] ∧
      e.verdict = .fail ∧
      (∀ name, name ∈ e.suites.names ↔ name ∈ config.expected ∧ name ∉ e.summary.suitesMissing) ∧
      e.suites.size + e.summary.suitesMissing.length = config.expected.length ∧
      ¬ (e.summary.suitesMissing = [] ∧
        ∀ name r, e.suites.get? name = some r → r.status = .pass) := by
  have hload : Config.load twoSuites "." none = .ok { expected := ["a", "b"] } := by
    decide +kernel
  have hseen : (generate twoSuites "." { expected := ["a", "b"] } unfinishedLog {}).toOption.map
      (fun e => (e.suites.names, e.summary.suitesMissing, e.verdict)) =
        some (["b"], ["a"], .fail) := by
    decide +kernel
  cases hgenerate : generate twoSuites "." { expected := ["a", "b"] } unfinishedLog {} with
  | error fault => simp [hgenerate, Except.toOption] at hseen
  | ok e =>
    obtain ⟨hnames, hmissing, hverdict⟩ : e.suites.names = ["b"] ∧
        e.summary.suitesMissing = ["a"] ∧ e.verdict = .fail := by
      simpa [hgenerate, Except.toOption] using hseen
    obtain ⟨hpartition, -, -, hsize, -, -, hpass⟩ := suites_partition_of_generate hload hgenerate
    exact ⟨_, e, hload, hgenerate, rfl, hnames, hmissing, hverdict, hpartition, hsize,
      fun h => by simp [hpass.2 h] at hverdict⟩

end ReleaseGate.Evidence
