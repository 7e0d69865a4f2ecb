import ReleaseGate.Time.Date

/-!
# Dates and day numbers

Every day number belongs to a valid date, and is the day number of that date.
-/
namespace ReleaseGate.Time

/-- A day of an era of 400 years, taken apart into centuries, cycles of four years, years, and the
day of the year. Only the year before a leap day has 366 days: the last one of a cycle, and of the
cycles that end a century the last one of the era alone. -/
structure EraDay where
  century : Int
  cycle : Int
  year : Int
  day : Int
  century_range : 0 ≤ century ∧ century ≤ 3
  cycle_range : 0 ≤ cycle ∧ cycle ≤ 24
  year_range : 0 ≤ year ∧ year ≤ 3
  day_nonneg : 0 ≤ day
  day_le : day ≤ 364 ∨ day = 365 ∧ year = 3 ∧ (cycle ≠ 24 ∨ century = 3)

namespace EraDay

def number (d : EraDay) : Int :=
  36524 * d.century + 1461 * d.cycle + 365 * d.year + d.day

def yearOfEra (d : EraDay) : Int :=
  100 * d.century + 4 * d.cycle + d.year

theorem exists_number {n : Int} (h : 0 ≤ n) (hlt : n < 146097) : ∃ d : EraDay, d.number = n := by
  -- A day that is left over after four centuries, or after four years, belongs to the last one.
  let century := min (n / 36524) 3
  let rest := n - 36524 * century
  let year := min (rest % 1461 / 365) 3
  refine ⟨⟨century, rest / 1461, year, rest % 1461 - 365 * year, ?_, ?_, ?_, ?_, ?_⟩, ?_⟩
  · omega
  · omega
  · omega
  · omega
  · omega
  · simp only [number]
    omega

theorem yearOfEra_eq (d : EraDay) :
    (d.number - d.number / 1460 + d.number / 36524 - d.number / 146096) / 365 = d.yearOfEra := by
  obtain ⟨century, cycle, year, day, hcentury, hcycle, hyear, hday, hday'⟩ := d
  generalize hn : number ⟨century, cycle, year, day, hcentury, hcycle, hyear, hday, hday'⟩ = n
  simp only [number] at hn
  simp only [yearOfEra]
  have hcenturies : n / 36524 - n / 146096 = century := by
    by_cases hlast : n = 146096
    · omega
    · have hera : n / 146096 = 0 := by omega
      have hcentury : n / 36524 = century := by omega
      omega
  -- What is left of the leap days is one at most, and there is one at the end of a leap year.
  have hcycles : n / 1460 =
      25 * century + cycle + (24 * century + cycle + 365 * year + day) / 1460 := by omega
  have hleft : 0 ≤ day - (24 * century + cycle + 365 * year + day) / 1460 ∧
      day - (24 * century + cycle + 365 * year + day) / 1460 ≤ 364 := by omega
  omega

theorem number_sub (d : EraDay) :
    d.number - (365 * d.yearOfEra + d.yearOfEra / 4 - d.yearOfEra / 100) = d.day := by
  obtain ⟨century, cycle, year, day, hcentury, hcycle, hyear, hday, hday'⟩ := d
  simp only [number, yearOfEra]
  omega

theorem isLeapYear_of_day_eq {d : EraDay} (h : d.day = 365) (era : Int) :
    isLeapYear (d.yearOfEra + era * 400 + 1) = true := by
  obtain ⟨century, cycle, year, day, hcentury, hcycle, hyear, hday, hday'⟩ := d
  simp only at h
  simp only [isLeapYear, yearOfEra, Bool.and_eq_true, Bool.or_eq_true, beq_iff_eq, bne_iff_ne]
  omega

theorem number_range (d : EraDay) : 0 ≤ d.number ∧ d.number < 146097 := by
  obtain ⟨century, cycle, year, day, hcentury, hcycle, hyear, hday, hday'⟩ := d
  simp only [number]
  omega

/-- The month of the year, from March on. -/
def month (d : EraDay) : Int :=
  (5 * d.day + 2) / 153

def dayOfMonth (d : EraDay) : Int :=
  d.day - (153 * d.month + 2) / 5 + 1

/-- The date of a day in a given era. January and February belong to the next calendar year. -/
def date (d : EraDay) (era : Int) : Date :=
  if d.month < 10 then ⟨d.yearOfEra + era * 400, (d.month + 3).toNat, d.dayOfMonth.toNat⟩
  else ⟨d.yearOfEra + era * 400 + 1, (d.month - 9).toNat, d.dayOfMonth.toNat⟩

theorem month_range (d : EraDay) : 0 ≤ d.month ∧ d.month ≤ 11 := by
  have hnonneg := d.day_nonneg
  have hle := d.day_le
  unfold month
  omega

theorem ofDayNumber_eq (d : EraDay) (era : Int) :
    Date.ofDayNumber (era * 146097 + d.number - 719468) = d.date era := by
  have hrange := d.number_range
  have hshifted : era * 146097 + d.number - 719468 + 719468 = era * 146097 + d.number := by omega
  have hera : (era * 146097 + d.number) / 146097 = era := by omega
  have hday : (era * 146097 + d.number) % 146097 = d.number := by omega
  simp only [Date.ofDayNumber, hshifted, hera, hday, yearOfEra_eq, number_sub]
  rfl

theorem dayNumber_date (d : EraDay) (era : Int) :
    (d.date era).dayNumber = era * 146097 + d.number - 719468 := by
  have hmonth := d.month_range
  have hnumber := d.number_sub
  have hnonneg := d.day_nonneg
  have hle := d.day_le
  have hday : d.dayOfMonth = d.day - (153 * d.month + 2) / 5 + 1 := rfl
  have hyear : 0 ≤ d.yearOfEra ∧ d.yearOfEra < 400 := by
    have hcentury := d.century_range
    have hcycle := d.cycle_range
    have hyear := d.year_range
    unfold yearOfEra
    omega
  have hpos : 1 ≤ d.dayOfMonth := by
    rw [hday, month]
    omega
  unfold date
  split
  case isTrue h =>
    simp only [Date.dayNumber]
    rw [if_neg (by omega), if_neg (by omega)]
    omega
  case isFalse h =>
    simp only [Date.dayNumber]
    rw [if_pos (by omega), if_pos (by omega)]
    omega

theorem dayOfMonth_le (d : EraDay) : 1 ≤ d.dayOfMonth ∧ d.dayOfMonth ≤ 31 ∧
    (d.month = 1 ∨ d.month = 3 ∨ d.month = 6 ∨ d.month = 8 → d.dayOfMonth ≤ 30) ∧
    (d.month = 11 → d.dayOfMonth ≤ 28 ∨ d.dayOfMonth = 29 ∧ d.day = 365) := by
  have hmonth := d.month_range
  have hnonneg := d.day_nonneg
  have hle := d.day_le
  have hday : d.dayOfMonth = d.day - (153 * d.month + 2) / 5 + 1 := rfl
  have hdef : d.month = (5 * d.day + 2) / 153 := rfl
  omega

theorem isValid_date (d : EraDay) (era : Int) : (d.date era).isValid = true := by
  have hmonth := d.month_range
  obtain ⟨hpos, hle, hthirty, hfebruary⟩ := d.dayOfMonth_le
  have hleap := fun h => d.isLeapYear_of_day_eq h era
  unfold date
  split
  case isTrue h =>
    have hdays : d.dayOfMonth.toNat ≤
        daysInMonth (d.yearOfEra + era * 400) (d.month + 3).toNat := by
      unfold daysInMonth
      rw [if_neg (by omega)]
      split
      · omega
      · omega
    simp only [Date.isValid, Bool.and_eq_true, decide_eq_true_eq]
    omega
  case isFalse h =>
    have hdays : d.dayOfMonth.toNat ≤
        daysInMonth (d.yearOfEra + era * 400 + 1) (d.month - 9).toNat := by
      unfold daysInMonth
      split
      case isTrue hm =>
        rcases hfebruary (by omega) with hday | ⟨hday, hlast⟩
        · split
          · omega
          · omega
        · rw [if_pos (hleap hlast)]
          omega
      case isFalse => rw [if_neg (by omega)]; omega
    simp only [Date.isValid, Bool.and_eq_true, decide_eq_true_eq]
    omega

end EraDay

/-- Every day number belongs to a valid date. -/
theorem Date.ofDayNumber_spec (n : Int) :
    (ofDayNumber n).dayNumber = n ∧ (ofDayNumber n).isValid = true := by
  obtain ⟨d, hd⟩ := EraDay.exists_number (n := (n + 719468) % 146097) (by omega) (by omega)
  have hn : n = (n + 719468) / 146097 * 146097 + d.number - 719468 := by omega
  rw [hn, EraDay.ofDayNumber_eq]
  exact ⟨d.dayNumber_date _, d.isValid_date _⟩

end ReleaseGate.Time
