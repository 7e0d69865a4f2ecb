import Mathlib.Data.Finset.Card
import Mathlib.Data.Nat.Count
import ReleaseGate.Proofs.Text.Line

/-!
# Line numbers

The line that a position lies in is told by the line ends before it. There are as many physical
lines as there are line numbers.
-/
namespace ReleaseGate.Text

/-- Position `k` is where a line ends: a break stands there, and no carriage return that a line feed
follows. -/
def endsLine (s : List Char) (k : ℕ) : Bool :=
  s[k]?.any (· ∈ lineBreaks) && !(s[k]? == some '\r' && s[k + 1]? == some '\n')

/-- The number of the line that a position lies in, from zero. -/
def lineNumber (s : List Char) (i : ℕ) : ℕ :=
  Nat.count (fun k => endsLine s k) i

/-- The lines of a text that have the property at one of their positions. -/
def linesWhere (s : List Char) (p : ℕ → Bool) : Finset ℕ :=
  ((Finset.range s.length).filter fun i => p i).image (lineNumber s)

theorem lineNumber_cons (c : Char) (s : List Char) (i : ℕ) :
    lineNumber (c :: s) (i + 1) = lineNumber s i + if endsLine (c :: s) 0 then 1 else 0 := by
  rw [lineNumber, Nat.count_succ']
  rfl

theorem lineNumber_zero (s : List Char) : lineNumber s 0 = 0 :=
  Nat.count_zero _

theorem endsLine_cons_zero (c : Char) (s : List Char) :
    endsLine (c :: s) 0 = true ↔ isLineBreak c = true ∧ ¬ IsPair c s := by
  have hpair : IsPair c s ↔ c = '\r' ∧ s[0]? = some '\n' := by
    cases s with
    | nil => simp [IsPair]
    | cons d s => simp [IsPair]
  rw [hpair, isLineBreak_iff]
  simp [endsLine, imp_iff_not_or]

/-- A line with its terminator has number zero, and the numbers of the rest are one greater. -/
theorem lineNumber_terminated {line t rest : List Char} (hline : Unbroken isLineBreak line)
    (ht : Terminates isLineBreak t rest) (i : ℕ) :
    lineNumber (line ++ (t ++ rest)) i =
      if i < (line ++ t).length then 0 else lineNumber rest (i - (line ++ t).length) + 1 := by
  induction line generalizing i with
  | nil =>
    cases i with
    | zero => cases ht <;> simp [lineNumber_zero]
    | succ i =>
      cases ht with
      | pair =>
        have hreturn : endsLine ('\r' :: '\n' :: rest) 0 = false := by simp [endsLine]
        have hfeed : endsLine ('\n' :: rest) 0 = true := by simp [endsLine, lineBreaks]
        cases i with
        | zero => simp [lineNumber_cons, lineNumber_zero, hreturn]
        | succ i => simp [lineNumber_cons, hreturn, hfeed]
      | @single c _ hc hpair =>
        have hbreak : endsLine (c :: rest) 0 = true := (endsLine_cons_zero c rest).2 ⟨hc, hpair⟩
        simp [lineNumber_cons, hbreak]
  | cons c line ih =>
    have hc : endsLine (c :: (line ++ (t ++ rest))) 0 = false := by
      rw [← Bool.not_eq_true, endsLine_cons_zero, (hline c List.mem_cons_self).1]
      simp
    cases i with
    | zero => simp [lineNumber_zero]
    | succ i => simp [lineNumber_cons, hc, ih hline.tail]

theorem lineNumber_unbroken {line : List Char} (hline : Unbroken isLineBreak line) (i : ℕ) :
    lineNumber line i = 0 := by
  induction line generalizing i with
  | nil => simp [lineNumber, endsLine]
  | cons c line ih =>
    have hc : endsLine (c :: line) 0 = false := by
      rw [← Bool.not_eq_true, endsLine_cons_zero, (hline c List.mem_cons_self).1]
      simp
    cases i with
    | zero => exact lineNumber_zero _
    | succ i => rw [lineNumber_cons, hc, ih hline.tail]; rfl

theorem mem_linesWhere {s : List Char} {p : ℕ → Bool} {k : ℕ} :
    k ∈ linesWhere s p ↔ ∃ i < s.length, p i = true ∧ lineNumber s i = k := by
  simp [linesWhere, and_assoc]

/-- Where the first positions lie in line zero and the others in the lines of a rest, that line
counts if it has the property, and the lines of the rest count on their own. -/
theorem card_linesWhere {s rest : List Char} {n : ℕ} (hlength : s.length = n + rest.length)
    (hfirst : ∀ i < n, lineNumber s i = 0)
    (hrest : ∀ i < rest.length, lineNumber s (n + i) = lineNumber rest i + 1) (p : ℕ → Bool) :
    (linesWhere s p).card =
      ((List.range n).any p).toNat + (linesWhere rest fun i => p (n + i)).card := by
  set first : Finset ℕ := if (List.range n).any p then {0} else ∅ with hset
  set others := (linesWhere rest fun i => p (n + i)).image (· + 1) with hothers
  have hzero : ∀ k, k ∈ first ↔ k = 0 ∧ ∃ i < n, p i = true := by
    intro k
    rw [hset]
    split
    case isTrue h => simpa using fun _ => h
    case isFalse h => simpa using fun _ => h
  have hsucc : ∀ k, k ∈ others ↔
      ∃ i < rest.length, p (n + i) = true ∧ lineNumber rest i + 1 = k := by
    intro k
    simp only [hothers, Finset.mem_image, mem_linesWhere]
    constructor
    · rintro ⟨l, ⟨i, hi, hp, rfl⟩, rfl⟩
      exact ⟨i, hi, hp, rfl⟩
    · rintro ⟨i, hi, hp, rfl⟩
      exact ⟨_, ⟨i, hi, hp, rfl⟩, rfl⟩
  have hlines : linesWhere s p = first ∪ others := by
    ext k
    rw [mem_linesWhere, Finset.mem_union, hzero, hsucc]
    constructor
    · rintro ⟨i, hi, hp, rfl⟩
      by_cases hlt : i < n
      · exact .inl ⟨hfirst i hlt, i, hlt, hp⟩
      · obtain ⟨j, rfl⟩ := Nat.exists_eq_add_of_le (Nat.le_of_not_lt hlt)
        have hj : j < rest.length := by omega
        exact .inr ⟨j, hj, hp, (hrest j hj).symm⟩
    · rintro (⟨rfl, i, hi, hp⟩ | ⟨j, hj, hp, rfl⟩)
      · exact ⟨i, by omega, hp, hfirst i hi⟩
      · exact ⟨n + j, by omega, hp, hrest j hj⟩
  have hdisjoint : Disjoint first others := by
    rw [Finset.disjoint_left]
    intro k hk hk'
    obtain ⟨rfl, -⟩ := (hzero k).1 hk
    obtain ⟨i, -, -, hi⟩ := (hsucc 0).1 hk'
    omega
  have hcard : first.card = ((List.range n).any p).toNat := by
    rw [hset]
    cases (List.range n).any p <;> rfl
  rw [hlines, Finset.card_union_of_disjoint hdisjoint, hcard, hothers,
    Finset.card_image_of_injective _ (add_left_injective 1)]

theorem card_linesWhere_unbroken {line : List Char} (hline : Unbroken isLineBreak line)
    (p : ℕ → Bool) : (linesWhere line p).card = ((List.range line.length).any p).toNat := by
  have hlength : line.length = line.length + ([] : List Char).length := rfl
  exact card_linesWhere hlength (fun i _ => lineNumber_unbroken hline i)
    (fun i hi => absurd hi (Nat.not_lt_zero i)) p

theorem card_linesWhere_terminated {line t rest : List Char} (hline : Unbroken isLineBreak line)
    (ht : Terminates isLineBreak t rest) (p : ℕ → Bool) :
    (linesWhere (line ++ (t ++ rest)) p).card =
      ((List.range (line ++ t).length).any p).toNat +
        (linesWhere rest fun i => p ((line ++ t).length + i)).card := by
  apply card_linesWhere
  · simp [Nat.add_assoc]
  · intro i hi
    rw [lineNumber_terminated hline ht, if_pos hi]
  · intro i _
    rw [lineNumber_terminated hline ht, if_neg (by omega), Nat.add_sub_cancel_left]

theorem any_range_true {n : ℕ} (h : 0 < n) : (List.range n).any (fun _ => true) = true :=
  List.any_eq_true.2 ⟨0, List.mem_range.2 h, rfl⟩

/-- There are as many physical lines as there are lines that any position lies in. -/
theorem length_physicalLines (s : List Char) :
    (physicalLines s).length = (linesWhere s fun _ => true).card := by
  induction s using lines_induction with
  | nil => rfl
  | last line hne hline =>
    rw [physicalLines, splitLines_unbroken hline hne, card_linesWhere_unbroken hline,
      any_range_true (List.length_pos_of_ne_nil hne)]
    rfl
  | line line t rest hline ht ih =>
    have hlength : 0 < (line ++ t).length := by cases ht <;> simp
    rw [physicalLines, splitLines_terminated hline ht, card_linesWhere_terminated hline ht,
      List.length_cons, ← physicalLines, ih, any_range_true hlength, Nat.add_comm]
    rfl

end ReleaseGate.Text
