import ReleaseGate.Proofs.Evidence.Partition
import ReleaseGate.Proofs.Suite.Announced

/-!
# Suites that no log reports

A gate that expects a suite under a name that is always cut short can never pass. No other name has
that effect.
-/
namespace ReleaseGate.Evidence

open Files Suite

theorem verdictOf_of_mem_missing {expected : List String} {suites : Results} {name : String}
    (h : name ∈ missing expected suites) : verdictOf expected suites = .fail := by
  cases hverdict : verdictOf expected suites with
  | pass =>
    rw [(verdictOf_eq_pass_iff_missing.1 hverdict).1] at h
    cases h
  | fail => rfl

/-- Where an expected suite has white space, a slash or a hyphen in its name, that suite is missing
and the verdict fails, whatever has been logged and whatever code base it is about. A suite with any
other name is found in some log. -/
theorem suitesMissing_of_isCutShort {config : Config} {name : String}
    (hname : name ∈ config.expected) :
    (IsCutShort name → ∀ fs root log now e, generate fs root config log now = .ok e →
      name ∈ e.summary.suitesMissing ∧ e.verdict = .fail) ∧
    (¬ IsCutShort name → ∃ log, ∀ fs root now e, generate fs root config log now = .ok e →
      name ∉ e.summary.suitesMissing) := by
  constructor
  · intro hcut fs root log now e hgenerate
    obtain ⟨taxonomy, -, rfl⟩ := generate_eq_ok_iff.1 hgenerate
    have hunreported : name ∉ (readLog config.expected log).names := fun hfound =>
      (exists_mem_names_readLog_iff.1 ⟨log, hfound⟩).2 hcut
    have hmissing : name ∈ missing config.expected (readLog config.expected log) :=
      mem_missing_iff.2 ⟨hname, hunreported⟩
    exact ⟨hmissing, verdictOf_of_mem_missing hmissing⟩
  · intro hwhole
    obtain ⟨log, hfound⟩ := exists_mem_names_readLog_iff.2 ⟨hname, hwhole⟩
    refine ⟨log, fun fs root now e hgenerate => ?_⟩
    obtain ⟨taxonomy, -, rfl⟩ := generate_eq_ok_iff.1 hgenerate
    exact fun hmissing => (mem_missing_iff.1 hmissing).2 hfound

/-- A code base that expects a suite with a hyphen in its name. -/
def hyphenatedSuite : FileSystem :=
  { twoSuites with
    root := .put (.file (Text.Utf8.encode "suites.expected = ['a-b', 'c']".toList))
      ["paritygate.toml"] twoSuites.root }

/-- Both suites have run and passed. -/
def hyphenatedLog : List Char :=
  ("Running tests/a-b.rs (a-b-1)\ntest result: ok. 1 passed; 0 failed; 0 ignored\n" ++
    "Running tests/c.rs (c-1)\ntest result: ok. 1 passed; 0 failed; 0 ignored\n").toList

theorem suitesMissing_of_isCutShort_hyphenatedSuite :
    ∃ config e, Config.load hyphenatedSuite "." none = .ok config ∧
      "a-b" ∈ config.expected ∧ IsCutShort "a-b" ∧
      generate hyphenatedSuite "." config hyphenatedLog {} = .ok e ∧
      "a-b" ∈ e.summary.suitesMissing ∧ e.verdict = .fail := by
  have hload : Config.load hyphenatedSuite "." none = .ok { expected := ["a-b", "c"] } := by
    decide +kernel
  have hgenerates : (generate hyphenatedSuite "." { expected := ["a-b", "c"] } hyphenatedLog
      {}).toOption.isSome = true := by
    decide +kernel
  have hname : "a-b" ∈ ({ expected := ["a-b", "c"] } : Config).expected := by decide
  have hcut : IsCutShort "a-b" := by decide
  cases hgenerate : generate hyphenatedSuite "." { expected := ["a-b", "c"] } hyphenatedLog {} with
  | error fault => simp [hgenerate, Except.toOption] at hgenerates
  | ok e =>
    exact ⟨_, e, hload, hname, hcut, hgenerate,
      (suitesMissing_of_isCutShort hname).1 hcut _ _ _ _ e hgenerate⟩

end ReleaseGate.Evidence
