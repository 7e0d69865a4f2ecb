import ReleaseGate.Json.Decode

/-!
# Suite results

What a test runner reports of one suite.
-/
namespace ReleaseGate.Suite

inductive Status where
  | pass
  | fail
deriving DecidableEq, Repr, Inhabited

structure Result where
  status : Status := .pass
  passed : UInt64 := 0
  failed : UInt64 := 0
  ignored : UInt64 := 0
  total : UInt64 := 0
deriving DecidableEq, Repr, Inhabited

/-- The results by suite name. -/
abbrev Results := NameMap Result

/-- The total is the sum of the counts; `none` if that does not fit a word. -/
def Result.ofCounts? (status : Status) (passed failed ignored : UInt64) : Option Result :=
  let total := passed.toNat + failed.toNat + ignored.toNat
  if total < UInt64.size then some { status, passed, failed, ignored, total := total.toUInt64 }
  else none

theorem Result.toNat_total_of_ofCounts? {status : Status} {passed failed ignored : UInt64}
    {r : Result} (h : Result.ofCounts? status passed failed ignored = some r) :
    r.total.toNat = r.passed.toNat + r.failed.toNat + r.ignored.toNat := by
  simp only [Result.ofCounts?] at h
  split at h
  case isTrue hlt =>
    cases h
    exact UInt64.toNat_ofNat_of_lt' hlt
  case isFalse => simp at h

open Json

def Status.name : Status → String
  | .pass => "pass"
  | .fail => "fail"

def Status.names : List (String × Status) :=
  [("pass", .pass), ("fail", .fail)]

def Result.toValue (r : Result) : Value :=
  .record [("status", .text r.status.name), ("passed", .word r.passed), ("failed", .word r.failed),
    ("ignored", .word r.ignored), ("total", .word r.total)]

def Result.fields : List (RecordField Result) :=
  [.needed "status" (Tree.toChoice Status.names) fun status r => { r with status },
    .needed "passed" Tree.toWord fun passed r => { r with passed },
    .needed "failed" Tree.toWord fun failed r => { r with failed },
    .needed "ignored" Tree.toWord fun ignored r => { r with ignored },
    .needed "total" Tree.toWord fun total r => { r with total }]

def resultsValue (results : Results) : Value :=
  .record (results.entries.map fun e => (e.1, e.2.toValue))

end ReleaseGate.Suite
