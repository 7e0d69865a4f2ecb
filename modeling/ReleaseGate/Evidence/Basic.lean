import ReleaseGate.Suite.Result
import ReleaseGate.Taxonomy.Basic
import ReleaseGate.Time.Instant
import ReleaseGate.Json.Printer

/-!
# Evidence documents

What a release gate leaves behind: a verdict, the suite results it rests on with a summary of them,
and the counting taxonomy of the code base.
-/
namespace ReleaseGate

namespace Evidence

inductive Verdict where
  | pass
  | fail
deriving DecidableEq, Repr, Inhabited

structure Summary where
  suitesExpected : UInt64 := 0
  suitesFound : UInt64 := 0
  suitesMissing : List String := []
  totalPassed : UInt64 := 0
  totalFailed : UInt64 := 0
  totalTests : UInt64 := 0
  passRate : Decimal.Binary64 := .zero
deriving DecidableEq, Repr, Inhabited

end Evidence

structure Evidence where
  schema : String := ""
  generatedAt : Time.Instant := {}
  verdict : Evidence.Verdict := .pass
  summary : Evidence.Summary := {}
  suites : Suite.Results := .empty
  taxonomy : Taxonomy := {}
deriving DecidableEq, Repr, Inhabited

namespace Evidence

open Json

def Verdict.name : Verdict → String
  | .pass => "pass"
  | .fail => "fail"

def Verdict.names : List (String × Verdict) :=
  [("pass", .pass), ("fail", .fail)]

def Summary.toValue (s : Summary) : Value :=
  .record [("suites_expected", .word s.suitesExpected), ("suites_found", .word s.suitesFound),
    ("suites_missing", .list (s.suitesMissing.map .text)), ("total_passed", .word s.totalPassed),
    ("total_failed", .word s.totalFailed), ("total_tests", .word s.totalTests),
    ("pass_rate_pct", .number (.real s.passRate))]

def toValue (e : Evidence) : Value :=
  .record [("schema", .text e.schema), ("generated_at", .text e.generatedAt.text),
    ("verdict", .text e.verdict.name), ("summary", e.summary.toValue),
    ("suites", Suite.resultsValue e.suites), (Contract.taxonomyKey, e.taxonomy.toValue)]

/-- The stored form ends in a line feed. -/
def text (e : Evidence) : String :=
  e.toValue.prettyText ++ "\n"

def Summary.fields : List (RecordField Summary) :=
  [.needed "suites_expected" Tree.toWord fun suitesExpected s => { s with suitesExpected },
    .needed "suites_found" Tree.toWord fun suitesFound s => { s with suitesFound },
    .needed "suites_missing" (Tree.toList Tree.toText) fun suitesMissing s =>
      { s with suitesMissing },
    .needed "total_passed" Tree.toWord fun totalPassed s => { s with totalPassed },
    .needed "total_failed" Tree.toWord fun totalFailed s => { s with totalFailed },
    .needed "total_tests" Tree.toWord fun totalTests s => { s with totalTests },
    .needed "pass_rate_pct" Tree.toReal fun passRate s => { s with passRate }]

def readInstant : Decoder Time.Instant := fun t => do
  match Time.Instant.read? (← t.toText) with
  | some instant => return instant
  | none => .error .mistyped

def fields : List (RecordField Evidence) :=
  [.needed "schema" Tree.toText fun schema e => { e with schema },
    .needed "generated_at" readInstant fun generatedAt e => { e with generatedAt },
    .needed "verdict" (Tree.toChoice Verdict.names) fun verdict e => { e with verdict },
    .needed "summary" (Tree.toRecord Summary.fields {}) fun summary e => { e with summary },
    .needed "suites" (Tree.toNameMap (Tree.toRecord Suite.Result.fields {}))
      fun suites e => { e with suites },
    .needed Contract.taxonomyKey (Tree.toRecord Taxonomy.fields {}) fun taxonomy e =>
      { e with taxonomy }]

def read (bytes : List UInt8) : Except Fault Evidence :=
  decodeDocument (Tree.toRecord fields {}) bytes

end Evidence

end ReleaseGate
