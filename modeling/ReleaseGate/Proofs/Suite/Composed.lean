import ReleaseGate.Proofs.Suite.Attribution
import ReleaseGate.Proofs.Suite.Rendered

/-!
# Logs cut in two

What is read behind a cut depends on what stands before it only through the suite that waits there.
Where none waits, the results of the second part are laid over those of the first.
-/
namespace ReleaseGate.Suite

open Text

variable {expected : List String} {lines : List (List Char)} {base : Results} {p q : Progress}

/-- The same suite waits, and the results are those of `q` laid over the ones of `base`. -/
structure Progress.Over (base : Results) (p q : Progress) : Prop where
  awaiting : p.awaiting = q.awaiting
  results : ∀ s, p.results.get? s = (q.results.get? s).or (base.get? s)

theorem Progress.awaiting_announce_congr (expected : List String) (h : p.awaiting = q.awaiting)
    (line : List Char) :
    (p.announce expected line).awaiting = (q.announce expected line).awaiting := by
  unfold Progress.announce
  split
  · split
    · rfl
    · exact h
  · exact h

theorem Progress.Over.step (h : p.Over base q) (line : List Char) :
    (p.step expected line).Over base (q.step expected line) := by
  have hannounce := Progress.awaiting_announce_congr expected h.awaiting line
  constructor
  · refine Option.ext fun s => ?_
    rw [Progress.step, Progress.step, Progress.awaiting_sumUp, Progress.awaiting_sumUp, hannounce]
  · intro s
    rw [Progress.step, Progress.step, Progress.get?_sumUp, Progress.get?_sumUp, hannounce,
      Progress.results_announce, Progress.results_announce, h.results]
    split
    · rw [Option.or_assoc]
    · rfl

theorem Progress.Over.readLines (h : p.Over base q) (lines : List (List Char)) :
    (readLines expected p lines).Over base (readLines expected q lines) := by
  induction lines generalizing p q with
  | nil => exact h
  | cons line lines ih => exact ih (h.step line)

/-- Every line that announces an expected suite is a summary, or a summary comes after it. -/
def Answered (expected : List String) (lines : List (List Char)) : Prop :=
  ∀ i, ∀ s ∈ expected, announcedAt? lines i = some s → ∃ j, i ≤ j ∧ (summaryAt? lines j).isSome

instance : Decidable (Answered expected lines) :=
  decidable_of_iff (∀ i < lines.length, ∀ s ∈ expected, announcedAt? lines i = some s →
      ∃ j < lines.length, i ≤ j ∧ (summaryAt? lines j).isSome) <| by
    constructor
    · intro h i s hs hi
      obtain ⟨j, -, hj⟩ := h i (lt_length_of_announcedAt? hi) s hs hi
      exact ⟨j, hj⟩
    · intro h i _ s hs hi
      obtain ⟨j, hle, hj⟩ := h i s hs hi
      obtain ⟨sm, hsm⟩ := Option.isSome_iff_exists.1 hj
      exact ⟨j, lt_length_of_summaryAt? hsm, hle, hj⟩

/-- In lines that are answered no suite is left waiting. -/
theorem Answered.awaiting_eq_none (h : Answered expected lines) :
    (readLines expected {} lines).awaiting = none := by
  refine Option.eq_none_iff_forall_ne_some.2 fun s hs => ?_
  obtain ⟨hmem, i, hwaits⟩ := ((explained_readLines expected lines).awaiting s).1 hs
  obtain ⟨j, hle, hsummary⟩ := h i s hmem hwaits.announced
  obtain ⟨sm, hsm⟩ := Option.isSome_iff_exists.1 hsummary
  rw [hwaits.unanswered j hle (lt_length_of_summaryAt? hsm)] at hsm
  cases hsm

/-- Behind an answered part that ends with its last line no suite waits, and a log is read as if it
began there. And whole idle lines between the lines of a log change nothing. -/
theorem readLog_composes (expected : List String) :
    (∀ a b : List Char, (∀ c ∈ a.getLast?, c = '\n') → Answered expected (feedLines a) →
      (readLines expected {} (feedLines a)).awaiting = none ∧
        ∀ s, (readLog expected (a ++ b)).get? s =
          ((readLog expected b).get? s).or ((readLog expected a).get? s)) ∧
    ∀ a added b : List Char, (∀ c ∈ a.getLast?, c = '\n') → (∀ c ∈ added.getLast?, c = '\n') →
      (∀ line ∈ feedLines added, IsIdle expected line) →
        readLog expected (a ++ (added ++ b)) = readLog expected (a ++ b) := by
  constructor
  · intro a b ha hanswered
    have hover : (readLines expected {} (feedLines a)).Over (readLog expected a) {} :=
      ⟨hanswered.awaiting_eq_none, fun s => rfl⟩
    refine ⟨hanswered.awaiting_eq_none, fun s => ?_⟩
    rw [readLog, feedLines_append ha, readLines_append]
    exact (hover.readLines (feedLines b)).results s
  · intro a added b ha hadded hidle
    rw [readLog, readLog, feedLines_append ha, feedLines_append hadded, feedLines_append ha,
      readLines_append, readLines_append, readLines_idle hidle, readLines_append]

/-- A suite with a summary that cannot be counted, and one that is announced on the line of its
summary. -/
def answeredLog : List Char :=
  ("Running parity \ntest result: ok. 18446744073709551616 passed; 1 failed; 0 ignored\r\n" ++
    "Running taxonomy test result: ok. 2 passed; 0 failed; 1 ignored\n").toList

/-- A summary of nothing, and another run of the second suite, on whose last line the first one is
announced again. -/
def laterLog : List Char :=
  ("test result: ok. 9 passed; 0 failed; 0 ignored\nRunning tests/taxonomy.rs \n" ++
    "test result: FAILED. 1 passed; 1 failed; 0 ignored; Running parity").toList

def idleLines : List Char :=
  "Running other \r\n\nwarning\n".toList

theorem readLog_composes_answeredLog :
    Answered ["parity", "taxonomy"] (feedLines answeredLog) ∧
      (∀ line ∈ feedLines idleLines, IsIdle ["parity", "taxonomy"] line) ∧
      (readLog ["parity", "taxonomy"] (answeredLog ++ (idleLines ++ laterLog))).get? "taxonomy" =
        some ⟨.fail, 1, 1, 0, 2⟩ := by
  obtain ⟨hcut, hadded⟩ := readLog_composes ["parity", "taxonomy"]
  have hends : ∀ c ∈ answeredLog.getLast?, c = '\n' := by decide +kernel
  have hanswered : Answered ["parity", "taxonomy"] (feedLines answeredLog) := by
    decide +kernel
  have hidle : ∀ line ∈ feedLines idleLines, IsIdle ["parity", "taxonomy"] line := by
    decide +kernel
  refine ⟨hanswered, hidle, ?_⟩
  rw [hadded answeredLog idleLines laterLog hends (by decide) hidle,
    (hcut answeredLog laterLog hends hanswered).2 "taxonomy"]
  decide +kernel

end ReleaseGate.Suite
