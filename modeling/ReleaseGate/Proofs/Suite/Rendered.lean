import ReleaseGate.Proofs.NameMap
import ReleaseGate.Proofs.Suite.Line
import ReleaseGate.Proofs.Text.Line

/-!
# Logs of runs

A log that reports runs of expected suites one after another, with lines of other kinds anywhere
between theirs, is read as the runs it reports. Of several runs of a suite the last one counts.
-/
namespace ReleaseGate.Suite

open Text

inductive LineEnd where
  | feed
  | returnFeed

def LineEnd.text : LineEnd → List Char
  | .feed => ['\n']
  | .returnFeed => ['\r', '\n']

/-- No line of the text announces a suite or sums one up. -/
def IsSilent (text : List Char) : Prop :=
  ∀ line ∈ feedLines text, announced? line = none ∧ summary? line = none

instance (text : List Char) : Decidable (IsSilent text) :=
  inferInstanceAs (Decidable (∀ line ∈ feedLines text, _))

/-- A run in a log, with what stands before each of its two lines. -/
structure Report where
  before : List Char
  run : Run
  announcementEnd : LineEnd
  between : List Char
  summaryEnd : LineEnd

namespace Report

def text (e : Report) : List Char :=
  e.before ++ (e.run.announcementLine ++ (e.announcementEnd.text ++
    (e.between ++ (e.run.summaryLine ++ e.summaryEnd.text))))

/-- The run is of an expected suite, and around its lines there are only whole lines that are
silent. -/
@[mk_iff]
structure IsProper (expected : List String) (e : Report) : Prop where
  expected : e.run.name ∈ expected
  run : e.run.IsProper
  before_silent : IsSilent e.before
  before_ends : ∀ c ∈ e.before.getLast?, c = '\n'
  between_silent : IsSilent e.between
  between_ends : ∀ c ∈ e.between.getLast?, c = '\n'

instance (expected : List String) (e : Report) : Decidable (e.IsProper expected) :=
  decidable_of_iff _ (isProper_iff expected e).symm

end Report

variable {expected : List String} {p : Progress}

theorem not_isPair_feed (rest : List Char) : ¬ IsPair '\n' rest :=
  fun ⟨_, h, _⟩ => absurd h (by decide)

theorem feedLines_append {a b : List Char} (h : ∀ c ∈ a.getLast?, c = '\n') :
    feedLines (a ++ b) = feedLines a ++ feedLines b := by
  refine splitLines_append fun c hc => ?_
  rw [h c hc]
  exact ⟨rfl, not_isPair_feed b⟩

theorem feedLines_line {line : List Char} (h : IsBlankSpaced line)
    (e : LineEnd) (rest : List Char) :
    feedLines (line ++ (e.text ++ rest)) = line :: feedLines rest := by
  refine splitLines_terminated (fun c hc => ?_) ?_
  · have hne : ∀ d, isSpace d = true → d ≠ ' ' → c ≠ d := by
      rintro d hd hblank rfl
      rcases h c hc with he | he
      · exact hblank he
      · rw [hd] at he
        cases he
    simpa using And.intro (hne '\n' rfl (by decide)) (hne '\r' rfl (by decide))
  · cases e with
    | feed => exact .single rfl (not_isPair_feed rest)
    | returnFeed => exact .pair rest

/-- A line without a summary, and without an announcement of an expected suite. -/
def IsIdle (expected : List String) (line : List Char) : Prop :=
  (∀ s ∈ expected, announced? line ≠ some s) ∧ summary? line = none

instance (line : List Char) : Decidable (IsIdle expected line) :=
  inferInstanceAs (Decidable ((∀ s ∈ expected, _) ∧ _))

theorem Progress.step_idle {line : List Char} (h : IsIdle expected line) (p : Progress) :
    p.step expected line = p := by
  obtain ⟨hannounced, hsummary⟩ := h
  have hannounce : p.announce expected line = p := by
    unfold Progress.announce
    split
    case h_1 name hname =>
      have hmem : name ∉ expected := fun hmem => hannounced name hmem hname
      simp [hmem]
    case h_2 => rfl
  rw [Progress.step, hannounce, Progress.sumUp, hsummary]

/-- Idle lines change nothing. -/
theorem readLines_idle {lines : List (List Char)} (h : ∀ line ∈ lines, IsIdle expected line)
    (p : Progress) : readLines expected p lines = p := by
  induction lines with
  | nil => rfl
  | cons line lines ih =>
    rw [readLines, List.foldl_cons, Progress.step_idle (h line List.mem_cons_self)]
    exact ih fun other hother => h other (List.mem_cons_of_mem line hother)

theorem readLines_silent {lines : List (List Char)}
    (h : ∀ line ∈ lines, announced? line = none ∧ summary? line = none) (p : Progress) :
    readLines expected p lines = p := by
  refine readLines_idle (fun line hline => ⟨fun s _ => ?_, (h line hline).2⟩) p
  rw [(h line hline).1]
  exact nofun

theorem Progress.step_announces {line : List Char} {name : String}
    (hannounced : announced? line = some name) (hsummary : summary? line = none)
    (hname : name ∈ expected) (p : Progress) :
    p.step expected line = { p with awaiting := some name } := by
  simp [Progress.step, Progress.announce, Progress.sumUp, hannounced, hsummary, hname]

theorem Progress.step_reports {line : List Char} {sm : Summary} {r : Result}
    (hannounced : announced? line = none) (hsummary : summary? line = some sm)
    (hresult : sm.result? = some r) (name : String) (results : Results) :
    Progress.step expected ⟨some name, results⟩ line = ⟨none, results.insert name r⟩ := by
  simp [Progress.step, Progress.announce, Progress.sumUp, hannounced, hsummary, hresult]

/-- A report leaves its result behind, and no suite that waits. -/
theorem readLines_report {e : Report} (h : e.IsProper expected) (p : Progress)
    (rest : List Char) :
    readLines expected p (feedLines (e.text ++ rest)) =
      readLines expected ⟨none, p.results.insert e.run.name e.run.result⟩ (feedLines rest) := by
  have hlines : feedLines (e.text ++ rest) = feedLines e.before ++ e.run.announcementLine ::
      (feedLines e.between ++ e.run.summaryLine :: feedLines rest) := by
    simp only [Report.text, List.append_assoc]
    rw [feedLines_append h.before_ends,
      feedLines_line (Run.isBlankSpaced_announcementLine h.run), feedLines_append h.between_ends,
      feedLines_line (Run.isBlankSpaced_summaryLine e.run)]
  rw [hlines, readLines_append, readLines_silent h.before_silent, readLines, List.foldl_cons,
    Progress.step_announces (Run.announced?_announcementLine h.run)
      (Run.summary?_announcementLine h.run) h.expected, ← readLines, readLines_append,
    readLines_silent h.between_silent, readLines, List.foldl_cons,
    Progress.step_reports (Run.announced?_summaryLine e.run) (Run.summary?_summaryLine e.run)
      (Run.result?_summary h.run.total_lt), ← readLines]

theorem results_readLines_reports {reports : List Report}
    (h : ∀ e ∈ reports, e.IsProper expected) {tail : List Char} (htail : IsSilent tail)
    (p : Progress) :
    (readLines expected p (feedLines (reports.flatMap Report.text ++ tail))).results =
      (reports.map fun e => (e.run.name, e.run.result)).foldl (fun m e => m.insert e.1 e.2)
        p.results := by
  induction reports generalizing p with
  | nil =>
    rw [List.flatMap_nil, List.nil_append, readLines_silent htail]
    rfl
  | cons e reports ih =>
    rw [List.flatMap_cons, List.append_assoc, readLines_report (h e List.mem_cons_self),
      ih fun other hother => h other (List.mem_cons_of_mem e hother)]
    rfl

/-- A log that reports runs is read as exactly the last run of each suite. -/
theorem get?_readLog_reports {reports : List Report} (h : ∀ e ∈ reports, e.IsProper expected)
    {tail : List Char} (htail : IsSilent tail) (name : String) :
    (readLog expected (reports.flatMap Report.text ++ tail)).get? name =
      ((reports.map (·.run)).reverse.find? (·.name == name)).map Run.result := by
  have hempty : ({} : Progress).results.get? name = none := rfl
  rw [readLog, results_readLines_reports h htail, NameMap.get?_foldl_insert_eq_last, hempty,
    Option.or_none, ← List.map_reverse, ← List.map_reverse, List.find?_map, List.find?_map,
    Option.map_map, Option.map_map]
  rfl

/-- Two runs of one suite with a run of another between them, in a log of both line ends. -/
def repeatedSuite : List Report :=
  [⟨"   Compiling gate\n\n".toList, ⟨"parity", "0a1b", .fail, 2, 1, 0, 0, 0⟩, .feed,
      "running 3 tests\r\n".toList, .returnFeed⟩,
    ⟨[], ⟨"taxonomy", "77", .pass, 4, 0, 1, 0, 2⟩, .returnFeed, [], .feed⟩,
    ⟨"test result: ok\n".toList, ⟨"parity", "0a1c", .pass, 3, 0, 0, 0, 0⟩, .feed, [], .feed⟩]

theorem get?_readLog_reports_repeatedSuite :
    (∀ e ∈ repeatedSuite, e.IsProper ["parity", "taxonomy"]) ∧ IsSilent "error".toList ∧
      (readLog ["parity", "taxonomy"]
        (repeatedSuite.flatMap Report.text ++ "error".toList)).get? "parity" =
          some ⟨.pass, 3, 0, 0, 3⟩ := by
  have hproper : ∀ e ∈ repeatedSuite, e.IsProper ["parity", "taxonomy"] := by
    decide
  have hsilent : IsSilent "error".toList := by decide
  exact ⟨hproper, hsilent, get?_readLog_reports hproper hsilent "parity"⟩

end ReleaseGate.Suite
