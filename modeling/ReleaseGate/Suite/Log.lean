import ReleaseGate.Suite.Result
import ReleaseGate.Text.Blank
import ReleaseGate.Text.Digit
import ReleaseGate.Text.Line
import ReleaseGate.Text.Search

/-!
# Test logs

A runner announces a suite on one line and sums it up on a later one. Only expected suites are
attributed: an announcement of another one changes nothing, and a summary is credited to the suite
that was announced last, unless a summary came in between.
-/
namespace ReleaseGate.Suite

open Text

def dropSuffix? (suffix s : List Char) : Option (List Char) :=
  (after? suffix.reverse s.reverse).map List.reverse

/-- What follows the last slash of a target, without the suffix `.rs`, up to the first hyphen. -/
def normalName (target : List Char) : List Char :=
  let file := (target.reverse.takeWhile (· != '/')).reverse
  let stem := (dropSuffix? ".rs".toList file).getD file
  stem.takeWhile (· != '-')

/-- The target at the front of a text, up to white space. A suffix `.rs` does not belong to it
unless there is nothing else. -/
def target : Form (List Char) := fun s =>
  let word := s.takeWhile fun c => !isSpace c
  match s.dropWhile fun c => !isSpace c with
  | [] => none
  | rest =>
    if word.isEmpty then none
    else
      match dropSuffix? ".rs".toList word with
      | some (c :: stem) => some (c :: stem, rest)
      | _ => some (word, rest)

/-- A target after the word for running, and after the folder of tests if a target is left then. -/
def announcement : Form (List Char) := fun s => do
  let rest ← after? "Running ".toList s
  ((after? "tests/".toList rest).bind target).or (target rest)

/-- The suite that a line announces. -/
def announced? (line : List Char) : Option String :=
  (firstMatch announcement line).map fun t => String.ofList (normalName t)

/-- A summary as it is written. -/
structure Summary where
  status : Status
  passed : List Char
  failed : List Char
  ignored : List Char
deriving DecidableEq, Repr

/-- White space, digits, and a word. -/
def countBefore (word : List Char) : Form (List Char) := fun s => do
  let digits := (s.dropWhile isSpace).takeWhile isDigit
  let rest := (s.dropWhile isSpace).dropWhile isDigit
  if !(s.head?.any isSpace) || digits.isEmpty then none
  else return (digits, ← after? word rest)

def statusWord : Form Status := fun s =>
  match after? "ok.".toList s with
  | some rest => some (.pass, rest)
  | none => (after? "FAILED.".toList s).map fun rest => (.fail, rest)

def summary : Form Summary := fun s => do
  let (status, rest) ← statusWord (← after? "test result: ".toList s)
  let (passed, rest) ← countBefore " passed;".toList rest
  let (failed, rest) ← countBefore " failed;".toList rest
  let (ignored, rest) ← countBefore " ignored".toList rest
  return (⟨status, passed, failed, ignored⟩, rest)

def summary? (line : List Char) : Option Summary :=
  firstMatch summary line

def asciiDigit? (c : Char) : Option Nat :=
  if c.isDigit then some (c.toNat - 48) else none

/-- A count in ASCII digits that fits a word. -/
def readCount? (digits : List Char) : Option UInt64 := do
  let values ← digits.mapM asciiDigit?
  let n := values.foldl (fun n d => n * 10 + d) 0
  if n < UInt64.size then some n.toUInt64 else none

/-- `none` if a count or their sum is out of range. -/
def Summary.result? (s : Summary) : Option Result := do
  Result.ofCounts? s.status (← readCount? s.passed) (← readCount? s.failed) (← readCount? s.ignored)

/-- How far a log has been read: the suite that awaits its summary, and the results so far. -/
structure Progress where
  awaiting : Option String := none
  results : Results := .empty
deriving DecidableEq, Repr

def Progress.announce (expected : List String) (p : Progress) (line : List Char) : Progress :=
  match announced? line with
  | some name => if expected.contains name then { p with awaiting := some name } else p
  | none => p

/-- Any summary, in range or not, ends the wait for one. -/
def Progress.sumUp (p : Progress) (line : List Char) : Progress :=
  match summary? line with
  | none => p
  | some s =>
    match s.result?, p.awaiting with
    | some r, some name => ⟨none, p.results.insert name r⟩
    | _, _ => { p with awaiting := none }

/-- A line that announces and sums up announces first. -/
def Progress.step (expected : List String) (p : Progress) (line : List Char) : Progress :=
  (p.announce expected line).sumUp line

def readLines (expected : List String) (p : Progress) (lines : List (List Char)) : Progress :=
  lines.foldl (Progress.step expected) p

/-- The results of the expected suites in a log. -/
def readLog (expected : List String) (log : List Char) : Results :=
  (readLines expected {} (feedLines log)).results

theorem readLines_append (expected : List String) (p : Progress) (a b : List (List Char)) :
    readLines expected p (a ++ b) = readLines expected (readLines expected p a) b := by
  simp [readLines]

end ReleaseGate.Suite
