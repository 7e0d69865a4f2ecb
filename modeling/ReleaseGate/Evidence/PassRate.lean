import ReleaseGate.Decimal.Binary64

/-!
# Pass rates
-/
namespace ReleaseGate.Evidence

open Decimal

/-- The percentage of passing tests with two decimals, a half going up; zero if there are no tests.
Every step of it is rounded to 53 bits. -/
def passRate (passed total : UInt64) : Binary64 :=
  if total = 0 then .zero
  else percentage.getD .zero
where
  percentage : Option Binary64 := do
    let hundred ← Binary64.ofNat? 100
    let scaled ← hundred.mul (← Binary64.ofNat? passed.toNat)
    let percent ← scaled.div (← Binary64.ofNat? total.toNat)
    let hundredths := (← percent.mul hundred).roundToNat
    (← Binary64.ofNat? hundredths).div hundred

end ReleaseGate.Evidence
