import Mathlib.Data.List.Basic
import ReleaseGate.Proofs.Text.Digit
import ReleaseGate.Proofs.Time.Date
import ReleaseGate.Time.Instant

/-!
# Written instants are read back

An instant in range is written in the one form that its reader takes without any white space: every
number has its full width, and the offset is the letter of universal time.
-/
namespace ReleaseGate.Time

open Text

/-- An instant that a clock can show: in range, and with a leap second only at the end of a
minute. -/
structure Instant.IsProper (t : Instant) : Prop where
  inRange : t.isInRange = true
  nanos_lt : t.nanos < 2000000000
  leap : 1000000000 ≤ t.nanos → t.seconds % 60 = 59

theorem isDigit_padded {width n : Nat} {c : Char} (h : c ∈ padded width n) : c.isDigit = true := by
  rcases List.mem_append.1 h with h | h
  · rw [List.eq_of_mem_replicate h]
    rfl
  · exact isDigit_toDigits h

theorem padded_ne_nil (width n : Nat) : padded width n ≠ [] := by
  simp [padded, Nat.toDigits_ne_nil]

theorem length_padded {width n : Nat} (hwidth : 0 < width) (h : n < 10 ^ width) :
    (padded width n).length = width := by
  have hle := (Nat.length_toDigits_le_iff (by decide) hwidth).2 h
  rw [padded, List.length_append, List.length_replicate]
  omega

theorem value_padded (width n : Nat) :
    (padded width n).foldl (fun n c => n * 10 + (c.toNat - 48)) 0 = n := by
  have hzeros : ∀ k, (List.replicate k '0').foldl (fun n c => n * 10 + (c.toNat - 48)) 0 = 0 := by
    intro k
    induction k with
    | zero => rfl
    | succ k ih => rw [List.replicate_succ, List.foldl_cons]; exact ih
  rw [padded, List.foldl_append, hzeros, foldl_toDigits]

/-- Digits are read to their end, which is where their width or another character puts it. -/
theorem digits_append {width : Nat} {found rest : List Char}
    (hfound : ∀ c ∈ found, c.isDigit = true) (hne : found ≠ []) (hlength : found.length ≤ width)
    (hrest : found.length = width ∨ ∀ c ∈ rest.head?, c.isDigit = false) :
    digits width (found ++ rest) =
      some (found.foldl (fun n c => n * 10 + (c.toNat - 48)) 0, rest) := by
  have hstop : (rest.take (width - found.length)).takeWhile Char.isDigit = [] := by
    rcases hrest with hfull | hnot
    · rw [hfull, Nat.sub_self, List.take_zero, List.takeWhile_nil]
    · cases hk : width - found.length with
      | zero => rw [List.take_zero, List.takeWhile_nil]
      | succ k =>
        cases rest with
        | nil => rfl
        | cons c rest =>
          rw [List.take_succ_cons, List.takeWhile_cons_of_neg]
          simp [hnot c rfl]
  have htake : ((found ++ rest).take width).takeWhile Char.isDigit = found := by
    rw [List.take_append, List.take_of_length_le hlength, List.takeWhile_append_of_pos hfound,
      hstop, List.append_nil]
  simp [digits, htake, hne]

theorem digits_padded {width n : Nat} (hwidth : 0 < width) (h : n < 10 ^ width) (rest : List Char) :
    digits width (padded width n ++ rest) = some (n, rest) := by
  have hlength := length_padded hwidth h
  rw [digits_append (fun c => isDigit_padded) (padded_ne_nil width n) hlength.le (.inl hlength),
    value_padded]

theorem skipSpace_cons {c : Char} (h : isSpace c = false) (s : List Char) :
    skipSpace (c :: s) = c :: s := by
  rw [skipSpace, List.dropWhile_cons_of_neg (by simp [h])]

theorem padded_eq_cons (width n : Nat) : ∃ c s, padded width n = c :: s ∧ c.isDigit = true := by
  obtain ⟨c, s, hs⟩ := List.exists_cons_of_ne_nil (padded_ne_nil width n)
  exact ⟨c, s, hs, isDigit_padded (hs ▸ List.mem_cons_self)⟩

theorem skipSpace_padded (width n : Nat) (rest : List Char) :
    skipSpace (padded width n ++ rest) = padded width n ++ rest := by
  obtain ⟨c, s, hs, hc⟩ := padded_eq_cons width n
  rw [hs, List.cons_append, skipSpace_cons (isSpace_of_isDigit hc)]

/-- A field of two digits is read whatever follows it. -/
theorem within_padded {low high n : Nat} (hlow : low ≤ n) (hhigh : n ≤ high) (hn : n < 100)
    (rest : List Char) : within low high (padded 2 n ++ rest) = some (n, rest) := by
  simp [within, skipSpace_padded, digits_padded (by decide : 0 < 2) hn, hlow, hhigh]

theorem mark_cons {c : Char} (h : isSpace c = false) (s : List Char) :
    mark c (c :: s) = some s := by
  simp [mark, skipSpace_cons h, after?]

/-- A year of four digits, or a signed one up to the first mark behind it. -/
theorem year_yearText (y : Int) (rest : List Char) :
    year (yearText y ++ '-' :: rest) = some (y, '-' :: rest) := by
  have hmark : ∀ c ∈ ('-' :: rest).head?, c.isDigit = false := by
    rintro c ⟨⟩
    rfl
  have hsigned : digits (padded 4 y.natAbs ++ '-' :: rest).length
      (padded 4 y.natAbs ++ '-' :: rest) = some (y.natAbs, '-' :: rest) := by
    rw [digits_append (fun c => isDigit_padded) (padded_ne_nil 4 _) (by simp) (.inr hmark),
      value_padded]
  unfold yearText
  split
  case isTrue h =>
    obtain ⟨c, s, hs, hc⟩ := padded_eq_cons 4 y.natAbs
    have hdigits : digits 4 (padded 4 y.natAbs ++ '-' :: rest) = some (y.natAbs, '-' :: rest) :=
      digits_padded (by decide) (by omega) _
    have hsign : ∀ d tail, d.isDigit = false → padded 4 y.natAbs ++ '-' :: rest ≠ d :: tail := by
      intro d tail hd heq
      rw [hs, List.cons_append, List.cons.injEq] at heq
      rw [heq.1, hd] at hc
      cases hc
    rw [year, skipSpace_padded]
    split
    case h_1 heq => exact absurd heq (hsign _ _ rfl)
    case h_2 heq => exact absurd heq (hsign _ _ rfl)
    case h_3 =>
      simp only [hdigits, Option.map_some, Option.some.injEq, Prod.mk.injEq, and_true]
      omega
  case isFalse h =>
    rw [List.cons_append]
    split
    case isTrue hneg =>
      rw [year, skipSpace_cons (by decide)]
      simp only [hsigned, Option.map_some, Option.some.injEq, Prod.mk.injEq, and_true]
      omega
    case isFalse hneg =>
      rw [year, skipSpace_cons (by decide)]
      simp only [hsigned, Option.map_some, Option.some.injEq, Prod.mk.injEq, and_true]
      omega

theorem fraction_padded {places n : Nat} (hpos : 0 < places) (hle : places ≤ 9)
    (hn : n < 10 ^ places) :
    fraction ('.' :: padded places n ++ ['Z']) = some (n * 10 ^ (9 - places), ['Z']) := by
  have hlength := length_padded hpos hn
  have hdigits : digits 9 (padded places n ++ ['Z']) = some (n, ['Z']) := by
    rw [digits_append (fun c => isDigit_padded) (padded_ne_nil places n) (by omega) (.inr ?_),
      value_padded]
    rintro c ⟨⟩
    rfl
  rw [List.cons_append, fraction]
  simp [hdigits, hlength]

/-- Behind the seconds stands at most one fraction of three, six or nine digits. -/
theorem fraction_fractionText {nanos : Nat} (h : nanos < 1000000000) :
    fraction (fractionText nanos ++ ['Z']) = some (nanos, ['Z']) := by
  unfold fractionText
  split
  case isTrue hzero => rw [hzero]; rfl
  split
  case isTrue hthree =>
    have hvalue : nanos / 1000000 * 10 ^ (9 - 3) = nanos := by omega
    rw [fraction_padded (by decide) (by decide) (by omega), hvalue]
  split
  case isTrue hsix =>
    have hvalue : nanos / 1000 * 10 ^ (9 - 6) = nanos := by omega
    rw [fraction_padded (by decide) (by decide) (by omega), hvalue]
  case isFalse =>
    rw [fraction_padded (by decide) (by decide) (by omega), Nat.sub_self, Nat.pow_zero,
      Nat.mul_one]

/-- What the parts of a text in universal time amount to. -/
theorem Instant.read?_of_parts {text : String} {y : Int} {month day hour minute second nanos : Nat}
    {s₁ s₂ s₃ s₄ s₅ s₆ s₇ s₈ s₉ s₁₀ s₁₁ s₁₂ : List Char}
    (hyear : Time.year text.toList = some (y, s₁)) (hfirst : mark '-' s₁ = some s₂)
    (hmonth : within 1 12 s₂ = some (month, s₃)) (hsecond : mark '-' s₃ = some s₄)
    (hday : within 1 31 s₄ = some (day, s₅)) (hmiddle : after? ['T'] s₅ = some s₆)
    (hhour : within 0 23 s₆ = some (hour, s₇)) (hthird : mark ':' s₇ = some s₈)
    (hminute : within 0 59 s₈ = some (minute, s₉)) (hfourth : mark ':' s₉ = some s₁₀)
    (hseconds : within 0 60 s₁₀ = some (second, s₁₁)) (hnanos : fraction s₁₁ = some (nanos, s₁₂))
    (hoffset : offset (skipSpace s₁₂) = some (0, []))
    (hvalid : Date.isValid ⟨y, month, day⟩ = true) :
    Instant.read? text =
      let t : Instant := ⟨Date.dayNumber ⟨y, month, day⟩ * 86400 +
        (hour * 3600 + minute * 60 + (second - second / 60) : Nat),
        nanos + second / 60 * 1000000000⟩
      if t.isInRange then some t else none := by
  have hbind : ∀ {α β : Type} (a : α) (next : α → Option β), (some a >>= next) = next a :=
    fun _ _ => rfl
  unfold Instant.read?
  rw [hyear, hbind]
  dsimp only
  rw [hfirst, hbind, hmonth, hbind]
  dsimp only
  rw [hsecond, hbind, hday, hbind]
  dsimp only
  rw [hmiddle, Option.some_or, hbind, hhour, hbind]
  dsimp only
  rw [hthird, hbind, hminute, hbind]
  dsimp only
  rw [hfourth, hbind, hseconds, hbind]
  dsimp only
  rw [hnanos, hbind]
  dsimp only
  rw [hoffset, hbind]
  dsimp only
  rw [isBlank_nil, hvalid, Int.zero_mul, Int.sub_zero]
  generalize Date.dayNumber ⟨y, month, day⟩ * 86400 +
    ((hour * 3600 + minute * 60 + (second - second / 60) : Nat) : Int) = local'
  generalize nanos + second / 60 * 1000000000 = n
  have hrange : (⟨local', 0⟩ : Instant).isInRange = (⟨local', n⟩ : Instant).isInRange := by
    simp only [Instant.isInRange]
  rw [hrange]
  simp

theorem Date.le_of_isValid {d : Date} (h : d.isValid = true) :
    1 ≤ d.month ∧ d.month ≤ 12 ∧ 1 ≤ d.day ∧ d.day ≤ 31 := by
  simp only [Date.isValid, Bool.and_eq_true, decide_eq_true_eq] at h
  have hdays : daysInMonth d.year d.month ≤ 31 := by
    unfold daysInMonth
    split
    · split <;> omega
    split <;> omega
  omega

/-- An instant is read back from its text. -/
theorem Instant.read?_text {t : Instant} (h : t.IsProper) : Instant.read? t.text = some t := by
  obtain ⟨seconds, nanos⟩ := t
  have hnanos : nanos < 2000000000 := h.nanos_lt
  have hleap : 1000000000 ≤ nanos → seconds % 60 = 59 := h.leap
  obtain ⟨hday, hvalid⟩ := Date.ofDayNumber_spec (seconds / 86400)
  have hdash := mark_cons (c := '-') (by decide)
  have hcolon := mark_cons (c := ':') (by decide)
  obtain ⟨hmonth, hmonth', hdate, hdate'⟩ := Date.le_of_isValid hvalid
  obtain ⟨second, hsecond⟩ := Int.eq_ofNat_of_zero_le
    (Int.emod_nonneg seconds (by decide : (86400 : Int) ≠ 0))
  have hlt : second < 86400 := by omega
  generalize hlast : second % 60 + nanos / 1000000000 = last
  have hlast' : last ≤ 60 := by omega
  have htext : (Instant.text ⟨seconds, nanos⟩).toList =
      yearText (Date.ofDayNumber (seconds / 86400)).year ++ '-' ::
        (padded 2 (Date.ofDayNumber (seconds / 86400)).month ++ '-' ::
          (padded 2 (Date.ofDayNumber (seconds / 86400)).day ++ 'T' ::
            (padded 2 (second / 3600) ++ ':' :: (padded 2 (second / 60 % 60) ++
              ':' :: (padded 2 last ++ (fractionText (nanos % 1000000000) ++ ['Z'])))))) := by
    simp only [Instant.text, String.toList_ofList, List.append_assoc, List.cons_append, hsecond,
      Int.toNat_natCast, hlast]
  generalize Date.ofDayNumber (seconds / 86400) = date at *
  obtain ⟨y, month, day⟩ := date
  have hinstant : Date.dayNumber ⟨y, month, day⟩ * 86400 +
      (second / 3600 * 3600 + second / 60 % 60 * 60 + (last - last / 60) : Nat) = seconds := by
    rw [hday]
    omega
  have hnanos' : nanos % 1000000000 + last / 60 * 1000000000 = nanos := by omega
  have hread := Instant.read?_of_parts (htext ▸ year_yearText _ _) (hdash _)
    (within_padded hmonth hmonth' (by omega) _) (hdash _) (within_padded hdate hdate' (by omega) _)
    rfl (within_padded (Nat.zero_le _) (by omega) (by omega) _) (hcolon _)
    (within_padded (Nat.zero_le _) (by omega) (by omega) _) (hcolon _)
    (within_padded (Nat.zero_le _) hlast' (by omega) _) (fraction_fractionText (by omega)) rfl
    hvalid
  rw [hread]
  simp only [hinstant, hnanos']
  exact if_pos h.inRange

end ReleaseGate.Time
