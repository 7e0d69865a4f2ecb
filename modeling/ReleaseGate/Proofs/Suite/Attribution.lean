import ReleaseGate.Proofs.Suite.Report

/-!
# Attribution of summaries

What it means that a line of a log credits a result to a suite, said of the lines alone: the suite
was announced on that line or before it, nothing has ended its wait since, and the line reports the
result. Reading a log line by line finds for each expected suite the last result credited to it.
-/
namespace ReleaseGate.Suite

open Text

/-- The suite that line `k` announces. -/
def announcedAt? (lines : List (List Char)) (k : Nat) : Option String :=
  lines[k]?.bind announced?

/-- The summary on line `k`, in range or not. -/
def summaryAt? (lines : List (List Char)) (k : Nat) : Option Summary :=
  lines[k]?.bind summary?

/-- Suite `s`, announced on line `i`, still waits when line `j` is searched for a summary. -/
structure Waits (expected : List String) (lines : List (List Char)) (s : String) (i j : Nat) :
    Prop where
  announced : announcedAt? lines i = some s
  latest : ∀ k, i < k → k ≤ j → ∀ t ∈ expected, announcedAt? lines k ≠ some t
  unanswered : ∀ k, i ≤ k → k < j → summaryAt? lines k = none

/-- Line `j` credits the result `r` to suite `s`, which line `i` has announced. -/
structure Credits (expected : List String) (lines : List (List Char)) (s : String) (i j : Nat)
    (r : Result) : Prop extends Waits expected lines s i j where
  le : i ≤ j
  reported : ∃ sm, summaryAt? lines j = some sm ∧ sm.Reports r

/-- The last line that credits anything to suite `s` credits `r`. -/
def LastCredit (expected : List String) (lines : List (List Char)) (s : String) (r : Result) :
    Prop :=
  ∃ j, (∃ i, Credits expected lines s i j r) ∧
    ∀ k, j < k → ∀ i q, ¬ Credits expected lines s i k q

variable {expected : List String} {lines : List (List Char)} {line : List Char}
  {s : String} {i j : Nat} {r : Result}

theorem announcedAt?_append_of_lt {k : Nat} (h : k < lines.length) :
    announcedAt? (lines ++ [line]) k = announcedAt? lines k := by
  rw [announcedAt?, announcedAt?, List.getElem?_append_left h]

theorem summaryAt?_append_of_lt {k : Nat} (h : k < lines.length) :
    summaryAt? (lines ++ [line]) k = summaryAt? lines k := by
  rw [summaryAt?, summaryAt?, List.getElem?_append_left h]

theorem announcedAt?_append_length (lines : List (List Char)) (line : List Char) :
    announcedAt? (lines ++ [line]) lines.length = announced? line := by
  simp [announcedAt?]

theorem summaryAt?_append_length (lines : List (List Char)) (line : List Char) :
    summaryAt? (lines ++ [line]) lines.length = summary? line := by
  simp [summaryAt?]

theorem lt_length_of_announcedAt? {k : Nat} (h : announcedAt? lines k = some s) :
    k < lines.length := by
  by_contra hk
  simp [announcedAt?, List.getElem?_eq_none (Nat.le_of_not_lt hk)] at h

theorem lt_length_of_summaryAt? {k : Nat} {sm : Summary} (h : summaryAt? lines k = some sm) :
    k < lines.length := by
  by_contra hk
  simp [summaryAt?, List.getElem?_eq_none (Nat.le_of_not_lt hk)] at h

theorem Credits.lt_length (h : Credits expected lines s i j r) : j < lines.length := by
  obtain ⟨sm, hsm, -⟩ := h.reported
  exact lt_length_of_summaryAt? hsm

theorem Waits.not_lt {i' : Nat} {t : String} (h : Waits expected lines s i j)
    (h' : Waits expected lines t i' j) (hle : i' ≤ j) (ht : t ∈ expected) : ¬ i < i' :=
  fun hlt => h.latest i' hlt hle t ht h'.announced

/-- No line is credited to two suites. -/
theorem Credits.suite_unique {i' : Nat} {t : String} {q : Result}
    (h : Credits expected lines s i j r) (h' : Credits expected lines t i' j q)
    (hs : s ∈ expected) (ht : t ∈ expected) : s = t := by
  have hi : i = i' := by
    have := h.not_lt h'.toWaits h'.le ht
    have := h'.not_lt h.toWaits h.le hs
    omega
  subst hi
  exact Option.some.inj (h.announced.symm.trans h'.announced)

/-- What waited before a line waits on it, unless the line announces an expected suite. -/
theorem waits_append_iff (hi : i < lines.length) (hj : j ≤ lines.length) :
    Waits expected (lines ++ [line]) s i j ↔
      Waits expected lines s i j ∧
        (j = lines.length → ∀ t ∈ expected, announced? line ≠ some t) := by
  constructor
  · intro h
    refine ⟨⟨?_, ?_, ?_⟩, ?_⟩
    · exact announcedAt?_append_of_lt hi ▸ h.announced
    · intro k hik hkj t ht hk
      have hlt := lt_length_of_announcedAt? hk
      exact h.latest k hik hkj t ht ((announcedAt?_append_of_lt hlt).trans hk)
    · intro k hik hkj
      rw [← summaryAt?_append_of_lt (by omega)]
      exact h.unanswered k hik hkj
    · rintro rfl t ht hline
      exact h.latest _ hi le_rfl t ht ((announcedAt?_append_length lines line).trans hline)
  · rintro ⟨h, hnew⟩
    refine ⟨(announcedAt?_append_of_lt hi).trans h.announced, ?_, ?_⟩
    · intro k hik hkj t ht
      by_cases hk : k < lines.length
      · rw [announcedAt?_append_of_lt hk]
        exact h.latest k hik hkj t ht
      · have hkn : k = lines.length := by omega
        rw [hkn, announcedAt?_append_length]
        exact hnew (by omega) t ht
    · intro k hik hkj
      rw [summaryAt?_append_of_lt (by omega)]
      exact h.unanswered k hik hkj

/-- On a new line the expected suite that waits is the one it announces, if it announces one. -/
theorem exists_waits_append_iff :
    (∃ i, Waits expected (lines ++ [line]) s i lines.length) ↔
      announced? line = some s ∨
        (∀ t ∈ expected, announced? line ≠ some t) ∧
          ∃ i, Waits expected lines s i lines.length := by
  constructor
  · rintro ⟨i, h⟩
    have hlt := lt_length_of_announcedAt? h.announced
    rw [List.length_append, List.length_singleton] at hlt
    by_cases hi : i < lines.length
    · obtain ⟨hw, hnew⟩ := (waits_append_iff hi le_rfl).1 h
      exact .inr ⟨hnew rfl, i, hw⟩
    · have hin : i = lines.length := by omega
      exact .inl ((announcedAt?_append_length lines line).symm.trans (hin ▸ h.announced))
  · rintro (hline | ⟨hnew, i, h⟩)
    · refine ⟨lines.length, (announcedAt?_append_length lines line).trans hline, ?_, ?_⟩
      · intro k hlt hle
        omega
      · intro k hle hlt
        omega
    · have hi := lt_length_of_announcedAt? h.announced
      exact ⟨i, (waits_append_iff hi le_rfl).2 ⟨h, fun _ => hnew⟩⟩

theorem credits_append_iff_of_lt (hj : j < lines.length) :
    Credits expected (lines ++ [line]) s i j r ↔ Credits expected lines s i j r := by
  constructor
  · intro h
    have hi : i < lines.length := h.le.trans_lt hj
    refine ⟨((waits_append_iff hi hj.le).1 h.toWaits).1, h.le, ?_⟩
    rw [← summaryAt?_append_of_lt hj]
    exact h.reported
  · intro h
    have hi : i < lines.length := h.le.trans_lt hj
    refine ⟨(waits_append_iff hi hj.le).2 ⟨h.toWaits, fun he => absurd he hj.ne⟩, h.le, ?_⟩
    rw [summaryAt?_append_of_lt hj]
    exact h.reported

theorem credits_append_length_iff :
    Credits expected (lines ++ [line]) s i lines.length r ↔
      Waits expected (lines ++ [line]) s i lines.length ∧
        ∃ sm, summary? line = some sm ∧ sm.Reports r := by
  constructor
  · intro h
    exact ⟨h.toWaits, summaryAt?_append_length lines line ▸ h.reported⟩
  · rintro ⟨h, hr⟩
    have hi := lt_length_of_announcedAt? h.announced
    rw [List.length_append, List.length_singleton] at hi
    exact ⟨h, Nat.le_of_lt_succ hi, (summaryAt?_append_length lines line).symm ▸ hr⟩

/-- A new line decides the last credit if it credits anything, and keeps it otherwise. -/
theorem lastCredit_append_iff :
    LastCredit expected (lines ++ [line]) s r ↔
      (∃ i, Credits expected (lines ++ [line]) s i lines.length r) ∨
        (∀ i q, ¬ Credits expected (lines ++ [line]) s i lines.length q) ∧
          LastCredit expected lines s r := by
  constructor
  · rintro ⟨j, ⟨i, h⟩, hlast⟩
    have hj := h.lt_length
    rw [List.length_append, List.length_singleton] at hj
    by_cases hlt : j < lines.length
    · refine .inr ⟨hlast _ hlt, j, ⟨i, (credits_append_iff_of_lt hlt).1 h⟩, ?_⟩
      intro k hk i' q hq
      exact hlast k hk i' q ((credits_append_iff_of_lt hq.lt_length).2 hq)
    · have hjn : j = lines.length := by omega
      exact .inl ⟨i, hjn ▸ h⟩
  · rintro (⟨i, h⟩ | ⟨hnone, j, ⟨i, h⟩, hlast⟩)
    · refine ⟨lines.length, ⟨i, h⟩, fun k hk i' q hq => ?_⟩
      have hlt := hq.lt_length
      rw [List.length_append, List.length_singleton] at hlt
      omega
    · refine ⟨j, ⟨i, (credits_append_iff_of_lt h.lt_length).2 h⟩, fun k hk i' q hq => ?_⟩
      have hlt := hq.lt_length
      rw [List.length_append, List.length_singleton] at hlt
      by_cases hkn : k < lines.length
      · exact hlast k hk i' q ((credits_append_iff_of_lt hkn).1 hq)
      · have hke : k = lines.length := by omega
        exact hnone i' q (hke ▸ hq)

/-- The state of reading says of the lines read so far who waits and what was credited last. -/
structure Progress.Explained (expected : List String) (lines : List (List Char)) (p : Progress) :
    Prop where
  awaiting : ∀ s, p.awaiting = some s ↔
    s ∈ expected ∧ ∃ i, Waits expected lines s i lines.length
  results : ∀ s r, p.results.get? s = some r ↔ s ∈ expected ∧ LastCredit expected lines s r

theorem Progress.explained_nil : Progress.Explained expected [] {} where
  awaiting s := by
    simp only [List.length_nil, reduceCtorEq, false_iff, not_and, not_exists]
    intro _ i h
    exact absurd (lt_length_of_announcedAt? h.announced) (Nat.not_lt_zero i)
  results s r := by
    simp only [NameMap.get?_empty, reduceCtorEq, false_iff, not_and]
    rintro - ⟨j, ⟨i, h⟩, -⟩
    exact absurd h.lt_length (Nat.not_lt_zero j)

theorem Progress.results_announce (p : Progress) :
    (p.announce expected line).results = p.results := by
  unfold Progress.announce
  split
  · split <;> rfl
  · rfl

theorem Progress.Explained.awaiting_announce {p : Progress} (h : p.Explained expected lines)
    (line : List Char) (s : String) :
    (p.announce expected line).awaiting = some s ↔
      s ∈ expected ∧ ∃ i, Waits expected (lines ++ [line]) s i lines.length := by
  rw [exists_waits_append_iff]
  unfold Progress.announce
  split
  case h_1 name hname =>
    split
    case isTrue hmem =>
      have hmem : name ∈ expected := by simpa using hmem
      constructor
      · intro he
        obtain rfl := Option.some.inj he
        exact ⟨hmem, .inl hname⟩
      · rintro ⟨-, hs | ⟨hnew, -⟩⟩
        · exact hname.symm.trans hs
        · exact absurd hname (hnew name hmem)
    case isFalse hmem =>
      have hmem : name ∉ expected := by simpa using hmem
      rw [h.awaiting]
      refine and_congr_right fun hs => ⟨fun hw => .inr ⟨?_, hw⟩, ?_⟩
      · rintro t ht he
        obtain rfl := Option.some.inj (hname.symm.trans he)
        exact hmem ht
      · rintro (he | ⟨-, hw⟩)
        · obtain rfl := Option.some.inj (hname.symm.trans he)
          exact absurd hs hmem
        · exact hw
  case h_2 hname =>
    rw [h.awaiting]
    simp [hname]

theorem waits_length_append_iff :
    Waits expected (lines ++ [line]) s i (lines ++ [line]).length ↔
      Waits expected (lines ++ [line]) s i lines.length ∧ summary? line = none := by
  rw [List.length_append, List.length_singleton]
  constructor
  · intro h
    have hi := lt_length_of_announcedAt? h.announced
    rw [List.length_append, List.length_singleton] at hi
    refine ⟨⟨h.announced, fun k hik hkj => h.latest k hik (by omega),
      fun k hik hkj => h.unanswered k hik (by omega)⟩, ?_⟩
    rw [← summaryAt?_append_length lines line]
    exact h.unanswered _ (by omega) (by omega)
  · rintro ⟨h, hline⟩
    refine ⟨h.announced, fun k hik hkj t ht hk => ?_, fun k hik hkj => ?_⟩
    · have hlt := lt_length_of_announcedAt? hk
      rw [List.length_append, List.length_singleton] at hlt
      exact h.latest k hik (by omega) t ht hk
    · by_cases hk : k < lines.length
      · exact h.unanswered k hik hk
      · have hkn : k = lines.length := by omega
        rw [hkn, summaryAt?_append_length, hline]

theorem Progress.awaiting_sumUp (p : Progress) (line : List Char) (s : String) :
    (p.sumUp line).awaiting = some s ↔ p.awaiting = some s ∧ summary? line = none := by
  unfold Progress.sumUp
  cases summary? line with
  | none => simp
  | some sm => dsimp only; split <;> simp

/-- A summary replaces the result of the suite that waits, if it is in range. -/
theorem Progress.get?_sumUp (p : Progress) (line : List Char) (s : String) :
    (p.sumUp line).results.get? s =
      if p.awaiting = some s then ((summary? line).bind Summary.result?).or (p.results.get? s)
      else p.results.get? s := by
  unfold Progress.sumUp
  cases summary? line with
  | none => simp
  | some sm =>
    dsimp only [Option.bind_some]
    cases sm.result? with
    | none => simp
    | some r =>
      cases p.awaiting with
      | none => simp
      | some name => simp [NameMap.get?_insert, eq_comm]

theorem bind_result?_eq_some_iff :
    (summary? line).bind Summary.result? = some r ↔
      ∃ sm, summary? line = some sm ∧ sm.Reports r := by
  simp only [Option.bind_eq_some_iff, Summary.result?_eq_some_iff]

/-- One line keeps the explanation: who waits then follows from the announcement and the summary on
it, and what is credited last from who waited for that summary. -/
theorem Progress.Explained.step {p : Progress} (h : p.Explained expected lines)
    (line : List Char) : (p.step expected line).Explained expected (lines ++ [line]) := by
  have ha := h.awaiting_announce line
  constructor
  · intro s
    simp only [waits_length_append_iff, exists_and_right, ← and_assoc, ← ha]
    exact Progress.awaiting_sumUp _ line s
  · intro s q
    have hcredit : ∀ q, (∃ i, Credits expected (lines ++ [line]) s i lines.length q) ↔
        (∃ i, Waits expected (lines ++ [line]) s i lines.length) ∧
          (summary? line).bind Summary.result? = some q := fun q => by
      simp only [credits_append_length_iff, exists_and_right, bind_result?_eq_some_iff]
    rw [lastCredit_append_iff, hcredit, Progress.step, Progress.get?_sumUp,
      Progress.results_announce]
    by_cases hw : (p.announce expected line).awaiting = some s
    · obtain ⟨hs, hwaits⟩ := (ha s).1 hw
      rw [if_pos hw]
      cases hres : (summary? line).bind Summary.result? with
      | none =>
        have hno : ∀ i q, ¬ Credits expected (lines ++ [line]) s i lines.length q :=
          fun i q hq => by simpa [hres] using (hcredit q).1 ⟨i, hq⟩
        simp [h.results, hno]
      | some found =>
        have hyes : ∃ i, Credits expected (lines ++ [line]) s i lines.length found :=
          (hcredit found).2 ⟨hwaits, hres⟩
        have hsome : ¬ ∀ i q, ¬ Credits expected (lines ++ [line]) s i lines.length q :=
          fun hno => hyes.elim fun i hi => hno i found hi
        simp [hs, hwaits, hsome]
    · rw [if_neg hw, h.results]
      apply and_congr_right
      intro hs
      have hno : ¬ ∃ i, Waits expected (lines ++ [line]) s i lines.length :=
        fun hwaits => hw ((ha s).2 ⟨hs, hwaits⟩)
      have hnone : ∀ i q, ¬ Credits expected (lines ++ [line]) s i lines.length q :=
        fun i q hq => hno ⟨i, hq.toWaits⟩
      simp [hno, hnone]

theorem explained_readLines (expected : List String) (lines : List (List Char)) :
    (readLines expected {} lines).Explained expected lines := by
  induction lines using List.reverseRecOn with
  | nil => exact Progress.explained_nil
  | append_singleton lines line ih =>
    rw [readLines_append]
    exact ih.step line

/-- What is found of a suite has been credited to it, and the suite is expected. -/
theorem exists_credits_of_get?_readLog {log : List Char}
    (h : (readLog expected log).get? s = some r) :
    s ∈ expected ∧ ∃ i j, Credits expected (feedLines log) s i j r := by
  obtain ⟨hs, j, ⟨i, hcredits⟩, -⟩ :=
    ((explained_readLines expected (feedLines log)).results s r).1 h
  exact ⟨hs, i, j, hcredits⟩

/-- A log is read as its lines say: an expected suite has the result that was credited to it last,
and no other suite has one. -/
theorem get?_readLog_eq_some_iff (expected : List String) (log : List Char) (s : String)
    (r : Result) :
    (readLog expected log).get? s = some r ↔
      s ∈ expected ∧ ∃ j, (∃ i, Credits expected (feedLines log) s i j r) ∧
        ∀ k, j < k → ∀ i q, ¬ Credits expected (feedLines log) s i k q :=
  (explained_readLines expected (feedLines log)).results s r

end ReleaseGate.Suite
