import Mathlib.Algebra.BigOperators.Group.List.Basic
import Mathlib.Algebra.Order.BigOperators.Group.List
import ReleaseGate.Evidence.Assemble
import ReleaseGate.Proofs.NameMap
import ReleaseGate.Proofs.Suite.Attribution

/-!
# Totals

The total of one suite is exact, for a summary that does not fit is not recorded. The totals of all
suites stop at the greatest word, wherever on the way there the sum goes past it.
-/
namespace ReleaseGate

open Suite

namespace Suite

variable {expected : List String} {line : List Char} {sm : Summary}

/-- A summary out of range records nothing, and no suite waits after it. -/
theorem Progress.step_of_not_fits (hsummary : summary? line = some sm) (hfits : ¬ sm.Fits)
    (p : Progress) : p.step expected line = ⟨none, p.results⟩ := by
  have hnone : sm.result? = none := Summary.result?_eq_none_iff.2 hfits
  have hresults : (p.announce expected line).results = p.results := Progress.results_announce p
  rw [Progress.step, Progress.sumUp, hsummary]
  simp only [hnone, hresults]

theorem toNat_total_of_get?_readLog {log : List Char} {name : String} {r : Result}
    (h : (readLog expected log).get? name = some r) :
    r.total.toNat = r.passed.toNat + r.failed.toNat + r.ignored.toNat := by
  obtain ⟨-, i, j, hcredits⟩ := exists_credits_of_get?_readLog h
  obtain ⟨sm, -, hreports⟩ := hcredits.reported
  exact hreports.total

variable {r : Result}

theorem Result.passed_le_total
    (h : r.total.toNat = r.passed.toNat + r.failed.toNat + r.ignored.toNat) :
    r.passed ≤ r.total := by
  rw [UInt64.le_iff_toNat_le, h]
  omega

theorem Result.failed_le_total
    (h : r.total.toNat = r.passed.toNat + r.failed.toNat + r.ignored.toNat) :
    r.failed ≤ r.total := by
  rw [UInt64.le_iff_toNat_le, h]
  omega

end Suite

namespace Evidence

variable {f g : Suite.Result → UInt64} {suites : Suite.Results}

/-- The sum over all suites, however great it is. -/
def trueTotal (count : Suite.Result → UInt64) (suites : Suite.Results) : ℕ :=
  (suites.values.map fun r => (count r).toNat).sum

theorem toNat_foldl_addSaturating (count : Suite.Result → UInt64) (results : List Suite.Result)
    (start : UInt64) :
    (results.foldl (fun sum r => addSaturating sum (count r)) start).toNat =
      min (start.toNat + (results.map fun r => (count r).toNat).sum) (UInt64.size - 1) := by
  induction results generalizing start with
  | nil => exact (Nat.min_eq_left (Nat.le_sub_one_of_lt start.toNat_lt)).symm
  | cons r results ih =>
    rw [List.foldl_cons, ih, toNat_addSaturating, List.map_cons, List.sum_cons]
    omega

/-- Stopping at the greatest word on the way and at the end come to the same. -/
theorem toNat_total (count : Suite.Result → UInt64) (suites : Suite.Results) :
    (total count suites).toNat = min (trueTotal count suites) (UInt64.size - 1) := by
  rw [total, toNat_foldl_addSaturating, UInt64.toNat_zero, Nat.zero_add, trueTotal]

theorem trueTotal_le (h : ∀ r ∈ suites.values, f r ≤ g r) :
    trueTotal f suites ≤ trueTotal g suites :=
  List.sum_le_sum fun r hr => UInt64.le_iff_toNat_le.1 (h r hr)

/-- Ignored tests are counted beside those that have passed or failed. -/
theorem trueTotal_passed_add_failed_le (h : ∀ r ∈ suites.values,
      r.total.toNat = r.passed.toNat + r.failed.toNat + r.ignored.toNat) :
    trueTotal (·.passed) suites + trueTotal (·.failed) suites ≤ trueTotal (·.total) suites := by
  rw [trueTotal, trueTotal, ← List.sum_map_add]
  refine List.sum_le_sum fun r hr => ?_
  rw [h r hr]
  omega

/-- A total goes up with what it sums up, even where it stops at the greatest word. -/
theorem total_le (h : ∀ r ∈ suites.values, f r ≤ g r) : total f suites ≤ total g suites := by
  rw [UInt64.le_iff_toNat_le, toNat_total, toNat_total]
  exact min_le_min_right _ (trueTotal_le h)

/-- What is recorded of a suite adds up, and the totals of the evidence are the true sums over all
suites as long as these are words, and the greatest word otherwise. So no more tests have passed
than there are, no more have failed, and if the true sum of the tests is a word neither have both
together. -/
theorem totals_exact_or_saturated (expected : List String) (log : List Char) (taxonomy : Taxonomy)
    (now : Time.Instant) :
    let suites := readLog expected log
    let summary := (assemble suites expected taxonomy now).summary
    (∀ name r, suites.get? name = some r →
        r.total.toNat = r.passed.toNat + r.failed.toNat + r.ignored.toNat ∧
          r.passed.toNat + r.failed.toNat + r.ignored.toNat < UInt64.size) ∧
      (∀ before line sm, summary? line = some sm → ¬ sm.Fits →
        readLines expected {} (before ++ [line]) =
          ⟨none, (readLines expected {} before).results⟩) ∧
      summary.totalPassed.toNat = min (trueTotal (·.passed) suites) (UInt64.size - 1) ∧
      summary.totalFailed.toNat = min (trueTotal (·.failed) suites) (UInt64.size - 1) ∧
      summary.totalTests.toNat = min (trueTotal (·.total) suites) (UInt64.size - 1) ∧
      summary.totalPassed ≤ summary.totalTests ∧ summary.totalFailed ≤ summary.totalTests ∧
      (trueTotal (·.total) suites < UInt64.size →
        summary.totalPassed.toNat + summary.totalFailed.toNat ≤ summary.totalTests.toNat) := by
  intro suites summary
  have hsum : ∀ r ∈ suites.values,
      r.total.toNat = r.passed.toNat + r.failed.toNat + r.ignored.toNat := by
    intro r hr
    obtain ⟨name, hname⟩ := NameMap.mem_values_iff.1 hr
    exact toNat_total_of_get?_readLog hname
  have htests : summary.totalTests.toNat = min (trueTotal (·.total) suites) (UInt64.size - 1) :=
    toNat_total _ _
  refine ⟨fun name r h => ?_, fun before line sm hsummary hfits => ?_, toNat_total _ _,
    toNat_total _ _, htests, total_le fun r hr => Suite.Result.passed_le_total (hsum r hr),
    total_le fun r hr => Suite.Result.failed_le_total (hsum r hr), fun hlt => ?_⟩
  · have htotal := toNat_total_of_get?_readLog h
    exact ⟨htotal, htotal ▸ r.total.toNat_lt⟩
  · rw [readLines_append]
    exact Progress.step_of_not_fits hsummary hfits _
  · rw [htests, Nat.min_eq_left (Nat.le_sub_one_of_lt hlt)]
    have hp : summary.totalPassed.toNat ≤ trueTotal (·.passed) suites :=
      (toNat_total _ _).trans_le (min_le_left _ _)
    have hf : summary.totalFailed.toNat ≤ trueTotal (·.failed) suites :=
      (toNat_total _ _).trans_le (min_le_left _ _)
    have hboth := trueTotal_passed_add_failed_le hsum
    omega

/-- One suite alone has passed as many tests as can be counted. -/
def fullLog : List Char :=
  ("Running a \ntest result: ok. 18446744073709551615 passed; 0 failed; 0 ignored\n" ++
    "Running b \ntest result: FAILED. 1 passed; 2 failed; 4 ignored\n").toList

/-- Another run of the second suite, with counts whose sum is too great. -/
def overfullLine : List Char :=
  "Running b test result: ok. 18446744073709551615 passed; 1 failed; 0 ignored".toList

theorem totals_exact_or_saturated_fullLog :
    readLines ["a", "b"] {} (Text.feedLines fullLog ++ [overfullLine]) =
        ⟨none, readLog ["a", "b"] fullLog⟩ ∧
      (assemble (readLog ["a", "b"] fullLog) ["a", "b"] {} {}).summary.totalPassed.toNat =
        18446744073709551615 ∧
      (assemble (readLog ["a", "b"] fullLog) ["a", "b"] {} {}).summary.totalFailed.toNat = 2 ∧
      (assemble (readLog ["a", "b"] fullLog) ["a", "b"] {} {}).summary.totalTests.toNat =
        18446744073709551615 := by
  obtain ⟨-, hoverfull, hpassed, hfailed, htests, -⟩ :=
    totals_exact_or_saturated ["a", "b"] fullLog {} {}
  have hvalues : (readLog ["a", "b"] fullLog).values =
      [⟨.pass, 18446744073709551615, 0, 0, 18446744073709551615⟩, ⟨.fail, 1, 2, 4, 7⟩] := by
    decide +kernel
  have hsummary : summary? overfullLine =
      some ⟨.pass, "18446744073709551615".toList, ['1'], ['0']⟩ := by decide +kernel
  have hfits : ¬ Summary.Fits ⟨.pass, "18446744073709551615".toList, ['1'], ['0']⟩ :=
    Summary.result?_eq_none_iff.1 (by decide +kernel)
  refine ⟨hoverfull _ _ _ hsummary hfits, ?_, ?_, ?_⟩
  · rw [hpassed, trueTotal, hvalues]
    decide
  · rw [hfailed, trueTotal, hvalues]
    decide
  · rw [htests, trueTotal, hvalues]
    decide

end Evidence

end ReleaseGate
