import Mathlib.Data.List.Induction
import Mathlib.Data.Nat.Digits.Defs
import ReleaseGate.Suite.Log

/-!
# What a summary reports

A summary is in range if its three counts are decimal numerals of 64-bit words and their sum is a
word too. It then reports exactly one result, which says what the summary says.
-/
namespace ReleaseGate.Suite

/-- The digits are the base-ten numeral of `n`, in ASCII. -/
def Spells (digits : List Char) (n : Nat) : Prop :=
  (∀ c ∈ digits, c.isDigit) ∧ Nat.ofDigits 10 (digits.reverse.map fun c => c.toNat - 48) = n

/-- The summary is in range and has exactly the status and the counts of `r`. -/
structure Summary.Reports (s : Summary) (r : Result) : Prop where
  status : r.status = s.status
  passed : Spells s.passed r.passed.toNat
  failed : Spells s.failed r.failed.toNat
  ignored : Spells s.ignored r.ignored.toNat
  total : r.total.toNat = r.passed.toNat + r.failed.toNat + r.ignored.toNat

theorem mapM_asciiDigit? (digits : List Char) :
    digits.mapM asciiDigit? =
      if digits.all Char.isDigit then some (digits.map fun c => c.toNat - 48) else none := by
  induction digits with
  | nil => rfl
  | cons c digits ih =>
    rw [List.mapM_cons, ih, List.all_cons]
    simp only [asciiDigit?]
    cases c.isDigit with
    | false => rfl
    | true =>
      cases digits.all Char.isDigit with
      | false => rfl
      | true => rfl

theorem foldl_eq_ofDigits (values : List Nat) :
    values.foldl (fun n d => n * 10 + d) 0 = Nat.ofDigits 10 values.reverse := by
  induction values using List.reverseRecOn with
  | nil => rfl
  | append_singleton values d ih =>
    rw [List.foldl_append, ih, List.reverse_concat, Nat.ofDigits_cons]
    simp only [List.foldl_cons, List.foldl_nil]
    exact (Nat.add_comm _ _).trans (congrArg _ (Nat.mul_comm _ _))

theorem readCount?_eq_some_iff {digits : List Char} {n : UInt64} :
    readCount? digits = some n ↔ Spells digits n.toNat := by
  simp only [readCount?, mapM_asciiDigit?, Spells, Option.bind_eq_bind, ← List.all_eq_true]
  by_cases h : digits.all Char.isDigit
  · rw [if_pos h, Option.bind_some, foldl_eq_ofDigits, ← List.map_reverse]
    generalize Nat.ofDigits 10 (digits.reverse.map fun c => c.toNat - 48) = value
    constructor
    · intro hn
      split at hn
      case isTrue hlt => exact ⟨h, by rw [← Option.some.inj hn, UInt64.toNat_ofNat_of_lt' hlt]⟩
      case isFalse => simp at hn
    · rintro ⟨-, rfl⟩
      rw [if_pos n.toNat_lt]
      simp
  · rw [if_neg h]
    simp [h]

theorem Result.ofCounts?_eq_some_iff {status : Status} {passed failed ignored : UInt64}
    {r : Result} :
    Result.ofCounts? status passed failed ignored = some r ↔
      r.status = status ∧ r.passed = passed ∧ r.failed = failed ∧ r.ignored = ignored ∧
        r.total.toNat = r.passed.toNat + r.failed.toNat + r.ignored.toNat := by
  constructor
  · intro h
    have htotal := Result.toNat_total_of_ofCounts? h
    simp only [Result.ofCounts?] at h
    split at h
    case isTrue =>
      obtain rfl := Option.some.inj h
      exact ⟨rfl, rfl, rfl, rfl, htotal⟩
    case isFalse => simp at h
  · rintro ⟨rfl, rfl, rfl, rfl, htotal⟩
    rw [Result.ofCounts?, ← htotal, if_pos r.total.toNat_lt]
    simp

/-- The range checks and the declarative reading agree. -/
theorem Summary.result?_eq_some_iff {s : Summary} {r : Result} :
    s.result? = some r ↔ s.Reports r := by
  simp only [Summary.result?, Option.bind_eq_bind, Option.bind_eq_some_iff,
    Result.ofCounts?_eq_some_iff, readCount?_eq_some_iff]
  constructor
  · rintro ⟨_, hp, _, hf, _, hi, hs, rfl, rfl, rfl, ht⟩
    exact ⟨hs, hp, hf, hi, ht⟩
  · rintro ⟨hs, hp, hf, hi, ht⟩
    exact ⟨_, hp, _, hf, _, hi, hs, rfl, rfl, rfl, ht⟩

/-- The counts of the summary are numerals whose sum is a word, and so each of them is one. -/
def Summary.Fits (s : Summary) : Prop :=
  ∃ passed failed ignored, Spells s.passed passed ∧ Spells s.failed failed ∧
    Spells s.ignored ignored ∧ passed + failed + ignored < UInt64.size

theorem Summary.exists_reports_iff {s : Summary} : (∃ r, s.Reports r) ↔ s.Fits := by
  constructor
  · rintro ⟨r, h⟩
    exact ⟨_, _, _, h.passed, h.failed, h.ignored, h.total ▸ r.total.toNat_lt⟩
  · rintro ⟨passed, failed, ignored, hpassed, hfailed, hignored, hlt⟩
    have hword : ∀ n, n ≤ passed + failed + ignored → n.toUInt64.toNat = n := fun n hn =>
      UInt64.toNat_ofNat_of_lt' (Nat.lt_of_le_of_lt hn hlt)
    have hp := hword passed (by omega)
    have hf := hword failed (by omega)
    have hi := hword ignored (by omega)
    refine ⟨⟨s.status, passed.toUInt64, failed.toUInt64, ignored.toUInt64,
      (passed + failed + ignored).toUInt64⟩, rfl, ?_, ?_, ?_, ?_⟩
    · rwa [hp]
    · rwa [hf]
    · rwa [hi]
    · rw [hword _ (Nat.le_refl _), hp, hf, hi]

theorem Summary.result?_eq_none_iff {s : Summary} : s.result? = none ↔ ¬ s.Fits := by
  rw [← Summary.exists_reports_iff, Option.eq_none_iff_forall_ne_some, not_exists]
  simp only [ne_eq, Summary.result?_eq_some_iff]

end ReleaseGate.Suite
