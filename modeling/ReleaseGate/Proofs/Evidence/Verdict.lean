import Mathlib.Data.Set.Card
import ReleaseGate.Evidence.Generate
import ReleaseGate.Proofs.Config.Accepted
import ReleaseGate.Proofs.NameMap
import ReleaseGate.Proofs.Suite.Attribution

/-!
# Passing verdicts

A gate that passes has, for each expected suite, a line of the log of its own that credits a passing
result to that suite.
-/
namespace ReleaseGate.Evidence

open Files Suite

theorem verdictOf_eq_pass_iff {expected : List String} {suites : Results} :
    verdictOf expected suites = .pass ↔
      (∀ s r, suites.get? s = some r → r.status = .pass) ∧
        ∀ s ∈ expected, ∃ r, suites.get? s = some r := by
  have hall : (suites.values.all fun r => r.status == .pass) ↔
      ∀ s r, suites.get? s = some r → r.status = .pass := by
    simp only [List.all_eq_true, NameMap.mem_values_iff, beq_iff_eq, forall_exists_index]
    exact forall_comm
  have hmissing : (missing expected suites).isEmpty ↔
      ∀ s ∈ expected, ∃ r, suites.get? s = some r := by
    simp [missing, ← NameMap.contains_iff]
  rw [← hall, ← hmissing, ← Bool.and_eq_true, verdictOf]
  split
  case isTrue h => exact iff_of_true rfl h
  case isFalse h => exact iff_of_false (by decide) h

theorem generate_eq_ok_iff {fs : FileSystem} {root : Path} {config : Config} {log : List Char}
    {now : Time.Instant} {e : Evidence} :
    generate fs root config log now = .ok e ↔
      ∃ taxonomy, Taxonomy.build fs root config.sources = .ok taxonomy ∧
        e = assemble (readLog config.expected log) config.expected taxonomy now := by
  unfold generate
  cases Taxonomy.build fs root config.sources with
  | error fault => simp [bind, Except.bind]
  | ok taxonomy => simp [bind, Except.bind, pure, Except.pure, eq_comm]

/-- The lines that credit a passing result to an expected suite. -/
def passingLines (expected : List String) (lines : List (List Char)) : Set ℕ :=
  {j | ∃ s ∈ expected, ∃ i r, Credits expected lines s i j r ∧ r.status = .pass}

theorem finite_passingLines (expected : List String) (lines : List (List Char)) :
    (passingLines expected lines).Finite := by
  refine (Set.finite_lt_nat lines.length).subset ?_
  rintro j ⟨s, -, i, r, h, -⟩
  exact h.lt_length

theorem exists_credits_of_pass {expected : List String} {log : List Char} {s : String}
    (h : verdictOf expected (readLog expected log) = .pass) (hs : s ∈ expected) :
    ∃ j i r, Credits expected (Text.feedLines log) s i j r ∧ r.status = .pass := by
  obtain ⟨hpass, hfound⟩ := verdictOf_eq_pass_iff.1 h
  obtain ⟨r, hr⟩ := hfound s hs
  obtain ⟨-, i, j, hcredits⟩ := exists_credits_of_get?_readLog hr
  exact ⟨j, i, r, hcredits, hpass s r hr⟩

/-- If the gate passes, the expected suites are not none, and each has a line of its own in the log
that credits a passing result to it; so there are at least as many such lines as suites. -/
theorem credited_of_verdict_pass {fs : FileSystem} {root : Path} {explicit : Option Path}
    {config : Config} {log : List Char} {now : Time.Instant} {e : Evidence}
    (hload : Config.load fs root explicit = .ok config)
    (hgenerate : generate fs root config log now = .ok e) (hpass : e.verdict = .pass) :
    config.expected ≠ [] ∧
      (∃ lineOf : String → ℕ, Set.InjOn lineOf {s | s ∈ config.expected} ∧
        ∀ s ∈ config.expected, ∃ i r,
          Credits config.expected (Text.feedLines log) s i (lineOf s) r ∧ r.status = .pass) ∧
      (∀ s ∈ config.expected, ∀ t ∈ config.expected, ∀ i i' j q r,
        Credits config.expected (Text.feedLines log) s i j q →
          Credits config.expected (Text.feedLines log) t i' j r → s = t) ∧
      config.expected.length ≤ (passingLines config.expected (Text.feedLines log)).ncard := by
  obtain ⟨hne, -, hnodup⟩ := Config.defect?_eq_none_iff.1 (Config.defect?_of_load hload)
  obtain ⟨taxonomy, -, rfl⟩ := generate_eq_ok_iff.1 hgenerate
  have hexists : ∀ s ∈ config.expected, ∃ j i r,
      Credits config.expected (Text.feedLines log) s i j r ∧ r.status = .pass :=
    fun s hs => exists_credits_of_pass hpass hs
  choose! lineOf hline using hexists
  have hinj : Set.InjOn lineOf {s | s ∈ config.expected} := by
    intro s hs t ht hst
    obtain ⟨i, r, hsr, -⟩ := hline s hs
    obtain ⟨i', q, htq, -⟩ := hline t ht
    exact (hst ▸ hsr).suite_unique htq hs ht
  refine ⟨hne, ⟨lineOf, hinj, hline⟩,
    fun s hs t ht i i' j q r hsq htr => hsq.suite_unique htr hs ht, ?_⟩
  calc config.expected.length
      = {s | s ∈ config.expected}.ncard := by
        rw [← List.coe_toFinset, Set.ncard_coe_finset, List.toFinset_card_of_nodup hnodup]
    _ = (lineOf '' {s | s ∈ config.expected}).ncard := hinj.ncard_image.symm
    _ ≤ (passingLines config.expected (Text.feedLines log)).ncard := by
        refine Set.ncard_le_ncard ?_ (finite_passingLines _ _)
        rintro - ⟨s, hs, rfl⟩
        exact ⟨s, hs, hline s hs⟩

/-- A code base that expects two suites and has nothing to count. -/
def twoSuites : FileSystem where
  root := .folder
    [("paritygate.toml", .file (Text.Utf8.encode "suites.expected = ['a', 'b']".toList)),
      ("src", .folder [("provider_metadata.rs", .file [])]),
      ("docs", .folder [("extension-master-catalog.json", .file (Text.Utf8.encode "[]".toList)),
        ("counting-taxonomy-contract.json",
          .file (Text.Utf8.encode "[\"pi.qa.counting_taxonomy.v1\"]".toList))])]
  workingPlace := []

/-- Suite `b` is announced and summed up on one line, while `a` waits and is announced again. -/
def interleavedLog : List Char :=
  ("Running tests/a.rs (a-1)\n" ++
    "Running b test result: ok. 1 passed; 0 failed; 2 ignored\n" ++
    "Running tests/a.rs (a-1)\nRunning unittests src/lib.rs (c-2)\n" ++
    "test result: ok. 3 passed; 0 failed; 0 ignored\n").toList

theorem credited_of_verdict_pass_twoSuites :
    ∃ config e, Config.load twoSuites "." none = .ok config ∧
      generate twoSuites "." config interleavedLog {} = .ok e ∧ e.verdict = .pass ∧
      config.expected ≠ [] ∧
      (∃ lineOf : String → ℕ, Set.InjOn lineOf {s | s ∈ config.expected} ∧
        ∀ s ∈ config.expected, ∃ i r,
          Credits config.expected (Text.feedLines interleavedLog) s i (lineOf s) r ∧
            r.status = .pass) ∧
      config.expected.length ≤
        (passingLines config.expected (Text.feedLines interleavedLog)).ncard := by
  have hload : Config.load twoSuites "." none = .ok { expected := ["a", "b"] } := by
    decide +kernel
  have hverdict : (generate twoSuites "." { expected := ["a", "b"] } interleavedLog
      {}).toOption.map (·.verdict) = some .pass := by
    decide +kernel
  cases hgenerate : generate twoSuites "." { expected := ["a", "b"] } interleavedLog {} with
  | error fault => simp [hgenerate, Except.toOption] at hverdict
  | ok e =>
    have hpass : e.verdict = .pass := by simpa [hgenerate, Except.toOption] using hverdict
    obtain ⟨hne, hlines, -, hcount⟩ := credited_of_verdict_pass hload hgenerate hpass
    exact ⟨_, e, hload, hgenerate, hpass, hne, hlines, hcount⟩

end ReleaseGate.Evidence
