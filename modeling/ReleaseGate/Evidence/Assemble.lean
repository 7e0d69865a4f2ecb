import ReleaseGate.Evidence.Basic
import ReleaseGate.Evidence.PassRate

/-!
# The verdict

The gate passes if every suite found has passed and no expected suite is missing. The totals stop at
the greatest word.
-/
namespace ReleaseGate.Evidence

def schemaName : String := "pi.ci.parity_evidence.v1"

def addSaturating (a b : UInt64) : UInt64 :=
  if a.toNat + b.toNat < UInt64.size then a + b else UInt64.ofNat (UInt64.size - 1)

def total (count : Suite.Result → UInt64) (suites : Suite.Results) : UInt64 :=
  suites.values.foldl (fun sum r => addSaturating sum (count r)) 0

/-- The expected suites without a result, in their order. -/
def missing (expected : List String) (suites : Suite.Results) : List String :=
  expected.filter fun name => !suites.contains name

def verdictOf (expected : List String) (suites : Suite.Results) : Verdict :=
  if (suites.values.all fun r => r.status == .pass) && (missing expected suites).isEmpty then .pass
  else .fail

def assemble (suites : Suite.Results) (expected : List String) (taxonomy : Taxonomy)
    (generatedAt : Time.Instant) : Evidence where
  schema := schemaName
  generatedAt
  verdict := verdictOf expected suites
  summary :=
    { suitesExpected := expected.length.toUInt64
      suitesFound := suites.size.toUInt64
      suitesMissing := missing expected suites
      totalPassed := total (·.passed) suites
      totalFailed := total (·.failed) suites
      totalTests := total (·.total) suites
      passRate := passRate (total (·.passed) suites) (total (·.total) suites) }
  suites
  taxonomy

theorem toNat_addSaturating (a b : UInt64) :
    (addSaturating a b).toNat = min (a.toNat + b.toNat) (UInt64.size - 1) := by
  unfold addSaturating
  split
  case isTrue h =>
    rw [UInt64.toNat_add, Nat.mod_eq_of_lt h]
    exact (Nat.min_eq_left (Nat.le_sub_one_of_lt h)).symm
  case isFalse h =>
    rw [UInt64.toNat_ofNat_of_lt' (by decide)]
    exact (Nat.min_eq_right (Nat.le_trans (Nat.sub_le _ _) (Nat.le_of_not_lt h))).symm

end ReleaseGate.Evidence
