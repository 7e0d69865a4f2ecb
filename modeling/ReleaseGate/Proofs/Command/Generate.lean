import ReleaseGate.Command.Run
import ReleaseGate.Proofs.Evidence.Store

/-!
# Outcomes of generating evidence

Generation either stops before it changes anything, or computes evidence from the files as they are
and tries to store it. The exit code then tells the verdict, unless the evidence could not be
stored.
-/
namespace ReleaseGate.Command

open Files

/-- No evidence can be computed: the configuration cannot be loaded, no log can be read, or no
taxonomy can be built. -/
inductive Fails (fs : FileSystem) (log root : Path) (config : Option Path) : Prop
  | config {e : Config.LoadError} (h : Config.load fs root config = .error e)
  | log (h : Evidence.readLog? fs log = none)
  | taxonomy {c : Config} {e : Taxonomy.BuildError} (hload : Config.load fs root config = .ok c)
      (h : Taxonomy.build fs root c.sources = .error e)

theorem generate_of_fails {fs : FileSystem} {log root : Path} {config : Option Path}
    (h : Fails fs log root config) (now : Time.Instant) (output : Path) (json : Bool) :
    ∃ answer, generate fs now log output root config json = (fs, answer) ∧ answer.exitCode = 1 := by
  unfold generate
  cases hload : Config.load fs root config with
  | error e => exact ⟨_, rfl, rfl⟩
  | ok c =>
    dsimp only
    cases hlog : Evidence.readLog? fs log with
    | none => exact ⟨_, rfl, rfl⟩
    | some text =>
      cases h with
      | config h => simp [hload] at h
      | log h => simp [hlog] at h
      | @taxonomy c' e hload' h =>
        obtain rfl : c = c' := by simpa [hload] using hload'
        have hgenerate : Evidence.generate fs root c text now = .error e := by
          rw [Evidence.generate, h]
          rfl
        dsimp only
        rw [hgenerate]
        exact ⟨_, rfl, rfl⟩

/-- Where nothing fails there is evidence. -/
theorem exists_generate_of_not_fails {fs : FileSystem} {log root : Path} {config : Option Path}
    (h : ¬ Fails fs log root config) (now : Time.Instant) :
    ∃ c text e, Config.load fs root config = .ok c ∧ Evidence.readLog? fs log = some text ∧
      Evidence.generate fs root c text now = .ok e := by
  cases hload : Config.load fs root config with
  | error e => exact absurd (.config hload) h
  | ok c =>
    cases hlog : Evidence.readLog? fs log with
    | none => exact absurd (.log hlog) h
    | some text =>
      cases hbuild : Taxonomy.build fs root c.sources with
      | error e => exact absurd (.taxonomy hload hbuild) h
      | ok taxonomy =>
        exact ⟨c, text, _, rfl, rfl, Evidence.generate_eq_ok_iff.2 ⟨taxonomy, hbuild, rfl⟩⟩

/-- Evidence is generated with a configuration and stored, which leaves the given files behind. -/
structure Writes (fs : FileSystem) (now : Time.Instant) (log output root : Path)
    (config : Option Path) (c : Config) (e : Evidence) (stored : FileSystem) : Prop where
  load : Config.load fs root config = .ok c
  generated : ∃ text, Evidence.readLog? fs log = some text ∧
    Evidence.generate fs root c text now = .ok e
  stored : Evidence.store fs output e = (stored, none)

theorem generate_eq_of_writes {fs stored : FileSystem} {now : Time.Instant}
    {log output root : Path} {config : Option Path} {c : Config} {e : Evidence}
    (h : Writes fs now log output root config c e stored) (json : Bool) :
    generate fs now log output root config json =
      (stored, {
        exitCode := if e.verdict = .pass then 0 else 1
        output :=
          if json then lines [e.toValue.prettyText] else lines (evidenceRows output e) }) := by
  obtain ⟨hload, ⟨text, hlog, hgenerate⟩, hstored⟩ := h
  simp only [generate, hload, hlog, hgenerate, hstored]

theorem generate_of_unstored {fs stored : FileSystem} {now : Time.Instant}
    {log output root failed : Path} {config : Option Path} {c : Config} {text : List Char}
    {e : Evidence} (hload : Config.load fs root config = .ok c)
    (hlog : Evidence.readLog? fs log = some text)
    (hgenerate : Evidence.generate fs root c text now = .ok e)
    (hstore : Evidence.store fs output e = (stored, some failed)) (json : Bool) :
    generate fs now log output root config json =
      (stored, refused 1 (Evidence.unwrittenMessage failed)) := by
  simp only [generate, hload, hlog, hgenerate, hstore]

/-- Generation that fails before it has evidence leaves all files as they are. Otherwise the
evidence is that of the files as they were: either its rendering is in the file that the output path
names, and nothing else has changed but that folders above it are new; or the output cannot be
written, and no more than such folders are left. The exit code is zero exactly for stored evidence
that passes. -/
theorem run_generate_whole_or_untouched (fs : FileSystem) (now : Time.Instant)
    (log output root : Path) (config : Option Path) (json : Bool) :
    ∃ after answer, run fs now (.generate log output root config json) = (after, answer) ∧
      (Fails fs log root config → after = fs ∧ answer.exitCode = 1) ∧
      (¬ Fails fs log root config → ∃ c text e,
        Config.load fs root config = .ok c ∧ Evidence.readLog? fs log = some text ∧
        Evidence.generate fs root c text now = .ok e ∧ after = (Evidence.store fs output e).1 ∧
        ((Evidence.store fs output e).2 = none ∧
            after.content? output = some (Text.Utf8.encode e.text.toList) ∧
            (∃ place, after.reach true output = .found place ∧
              FileSystem.Opens output.Above (· = place) fs after) ∧
            answer.exitCode = (if e.verdict = .pass then 0 else 1) ∨
          (Evidence.store fs output e).2 ≠ none ∧
            FileSystem.Opens output.Above Item.nowhere fs after ∧ answer.exitCode = 1)) := by
  change ∃ after answer, generate fs now log output root config json = (after, answer) ∧ _
  by_cases hfails : Fails fs log root config
  · obtain ⟨answer, hrun, hexit⟩ := generate_of_fails hfails now output json
    exact ⟨fs, answer, hrun, fun _ => ⟨rfl, hexit⟩, fun hnot => absurd hfails hnot⟩
  · obtain ⟨c, text, e, hload, hlog, hgenerate⟩ := exists_generate_of_not_fails hfails now
    rcases hstore : Evidence.store fs output e with ⟨stored, failed⟩
    cases failed with
    | none =>
      obtain ⟨place, hopens, hreach, -⟩ := Evidence.opens_store hstore
      have hwrites : Writes fs now log output root config c e stored :=
        ⟨hload, ⟨text, hlog, hgenerate⟩, hstore⟩
      refine ⟨stored, _, generate_eq_of_writes hwrites json, fun h => absurd h hfails,
        fun _ => ⟨c, text, e, hload, hlog, hgenerate, by rw [hstore], .inl ?_⟩⟩
      exact ⟨by rw [hstore], Evidence.content?_of_store hstore, ⟨place, hreach, hopens⟩, rfl⟩
    | some failed =>
      have hopens := Evidence.opens_store_of_failed hstore
      refine ⟨stored, _, generate_of_unstored hload hlog hgenerate hstore json,
        fun h => absurd h hfails, fun _ => ⟨c, text, e, hload, hlog, hgenerate, by rw [hstore],
          .inr ?_⟩⟩
      exact ⟨by simp [hstore], hopens, rfl⟩

/-- A code base whose expected suites both pass in its log. -/
def passingSuites : FileSystem :=
  Evidence.twoSuites.put ["log"] (.file (Text.Utf8.encode Evidence.interleavedLog))

theorem run_generate_whole_or_untouched_passingSuites :
    (∃ after answer, run passingSuites {} (.generate "log" "out/sub/e.json" "." none false) =
        (after, answer) ∧ answer.exitCode = 0 ∧
        (∃ e : Evidence, e.verdict = .pass ∧
          after.content? "out/sub/e.json" = some (Text.Utf8.encode e.text.toList)) ∧
        ∃ place, after.reach true "out/sub/e.json" = .found place ∧
          FileSystem.Opens (Path.Above "out/sub/e.json") (· = place) passingSuites after) ∧
      ∃ answer, run passingSuites {} (.generate "absent" "out/sub/e.json" "." none false) =
        (passingSuites, answer) ∧ answer.exitCode = 1 := by
  constructor
  · obtain ⟨after, answer, hrun, huntouched, hstored⟩ :=
      run_generate_whole_or_untouched passingSuites {} "log" "out/sub/e.json" "." none false
    have hexit : (run passingSuites {} (.generate "log" "out/sub/e.json" "." none
        false)).2.exitCode = 0 := by
      decide +kernel
    rw [hrun] at hexit
    have hfails : ¬ Fails passingSuites "log" "." none := fun h => by
      simp [(huntouched h).2] at hexit
    obtain ⟨c, text, e, -, -, -, -, ⟨-, hcontent, hopens, hcode⟩ | ⟨-, -, hcode⟩⟩ :=
      hstored hfails
    · have hverdict : e.verdict = .pass := by simpa [hcode] using hexit
      exact ⟨after, answer, hrun, hexit, ⟨e, hverdict, hcontent⟩, hopens⟩
    · simp [hcode] at hexit
  · obtain ⟨after, answer, hrun, huntouched, -⟩ :=
      run_generate_whole_or_untouched passingSuites {} "absent" "out/sub/e.json" "." none false
    have hlog : Evidence.readLog? passingSuites "absent" = none := by decide +kernel
    obtain ⟨rfl, hexit⟩ := huntouched (.log hlog)
    exact ⟨answer, hrun, hexit⟩

end ReleaseGate.Command
