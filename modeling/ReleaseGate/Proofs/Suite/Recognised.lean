import Mathlib.Data.List.TakeWhile
import ReleaseGate.Proofs.Suite.Report
import ReleaseGate.Proofs.Text.Digit

/-!
# Lines that are recognised

A line announces a suite if an announcement begins somewhere in it, and sums one up if a summary
does. The leftmost place where one begins tells the target or the counts.
-/
namespace ReleaseGate.Text

section Decidable

variable (p : Char → Prop) [DecidablePred p]

/-- Only the characters of a text are gone through, although there are finitely many in all. -/
instance (priority := high) decidableForallMem (s : List Char) : Decidable (∀ c ∈ s, p c) :=
  List.decidableBAll p s

instance (priority := high) decidableForallMemOption (o : Option Char) :
    Decidable (∀ c ∈ o, p c) :=
  Option.decidableForallMem o

end Decidable

/-- At the leftmost place of a text where anything begins, it is `a`. -/
def BeginsFirst (begins : α → List Char → Prop) (a : α) (s : List Char) : Prop :=
  ∃ front tail, s = front ++ tail ∧ begins a tail ∧
    ∀ earlier later b, s = earlier ++ later → begins b later → front.length ≤ earlier.length

variable {form : Form α} {begins : α → List Char → Prop} {a : α} {c : Char} {s : List Char}

theorem BeginsFirst.of_begins (h : begins a s) : BeginsFirst begins a s :=
  ⟨[], s, rfl, h, fun _ _ _ _ _ => Nat.zero_le _⟩

theorem beginsFirst_nil_iff : BeginsFirst begins a [] ↔ begins a [] := by
  constructor
  · rintro ⟨front, tail, heq, h, -⟩
    obtain ⟨rfl, rfl⟩ := List.append_eq_nil_iff.1 heq.symm
    exact h
  · exact .of_begins

/-- Only where nothing begins does it matter what begins further on. -/
theorem beginsFirst_cons_iff : BeginsFirst begins a (c :: s) ↔
    begins a (c :: s) ∨ (∀ b, ¬ begins b (c :: s)) ∧ BeginsFirst begins a s := by
  constructor
  · rintro ⟨front, tail, heq, h, hfirst⟩
    cases front with
    | nil => exact .inl (heq ▸ h)
    | cons d front =>
      obtain ⟨rfl, rfl⟩ := List.cons.inj heq
      refine .inr ⟨fun b hb => ?_, front, tail, rfl, h, fun earlier later b hlater hb => ?_⟩
      · exact absurd (hfirst [] _ b rfl hb) (Nat.not_succ_le_zero _)
      · exact Nat.le_of_succ_le_succ (hfirst (c :: earlier) later b (by rw [hlater]; rfl) hb)
  · rintro (h | ⟨hnone, front, tail, rfl, h, hfirst⟩)
    · exact .of_begins h
    · refine ⟨c :: front, tail, rfl, h, fun earlier later b hlater hb => ?_⟩
      cases earlier with
      | nil => exact absurd (hlater ▸ hb) (hnone b)
      | cons d earlier =>
        exact Nat.succ_le_succ (hfirst earlier later b (List.cons.inj hlater).2 hb)

/-- If it is known what begins where a form matches, its first match is what begins first. -/
theorem firstMatch_eq_some_iff
    (hform : ∀ {a s}, (∃ rest, form s = some (a, rest)) ↔ begins a s) :
    firstMatch form s = some a ↔ BeginsFirst begins a s := by
  induction s with
  | nil =>
    rw [beginsFirst_nil_iff, ← hform, firstMatch]
    simp
  | cons c s ih =>
    rw [beginsFirst_cons_iff, ← ih, firstMatch]
    simp only [← hform]
    cases form (c :: s) with
    | none => simp
    | some found =>
      obtain ⟨b, rest⟩ := found
      simp

theorem firstMatch_of_eq_some {rest : List Char} (h : form s = some (a, rest)) :
    firstMatch form s = some a := by
  cases s with
  | nil => rw [firstMatch, h]; rfl
  | cons c s => rw [firstMatch, h]

/-- Where a form begins with a word, so does every match of it. -/
theorem firstMatch_eq_none_of_word {word : List Char}
    (hform : ∀ s, (form s).isSome → (after? word s).isSome)
    (h : ¬ word <:+: s) : firstMatch form s = none := by
  rw [Option.eq_none_iff_forall_ne_some]
  intro a ha
  have hfirst : BeginsFirst (fun a s => ∃ rest, form s = some (a, rest)) a s :=
    (firstMatch_eq_some_iff .rfl).1 ha
  obtain ⟨front, tail, rfl, ⟨_, htail⟩, -⟩ := hfirst
  obtain ⟨rest, hrest⟩ := Option.isSome_iff_exists.1 (hform tail (by rw [htail]; rfl))
  obtain rfl := eq_append_of_after? hrest
  exact h ⟨front, rest, by simp⟩

end ReleaseGate.Text

namespace ReleaseGate.Suite

open Text

theorem dropSuffix?_append (suffix s : List Char) : dropSuffix? suffix (s ++ suffix) = some s := by
  rw [dropSuffix?, List.reverse_append, after?_append, Option.map_some, List.reverse_reverse]

theorem eq_append_of_dropSuffix? {suffix s rest : List Char}
    (h : dropSuffix? suffix s = some rest) : s = rest ++ suffix := by
  obtain ⟨front, hfront, rfl⟩ := Option.map_eq_some_iff.1 h
  rw [← List.reverse_reverse s, eq_append_of_after? hfront, List.reverse_append,
    List.reverse_reverse]

theorem dropSuffix?_eq_none {suffix s : List Char} (h : ¬ suffix <:+ s) :
    dropSuffix? suffix s = none := by
  rw [Option.eq_none_iff_forall_ne_some]
  exact fun rest hrest => h ⟨rest, (eq_append_of_dropSuffix? hrest).symm⟩

section Announced

variable {s t : List Char} {name : String}

/-- The text begins with a word, which white space follows or `.rs` and white space. -/
structure Fits (t s : List Char) : Prop where
  nonempty : t ≠ []
  word : ∀ c ∈ t, isSpace c = false
  ends : ∃ c rest, isSpace c = true ∧ (s = t ++ c :: rest ∨ s = t ++ (".rs".toList ++ c :: rest))

/-- The shortest word that fits. -/
structure IsTarget (t s : List Char) : Prop where
  fits : Fits t s
  shortest : ∀ t', Fits t' s → t.length ≤ t'.length

/-- The text begins with an announcement of the target. The folder of tests belongs to the target
only if there is no target behind it. -/
inductive Announces (t : List Char) : List Char → Prop
  | inTests {s : List Char} (h : IsTarget t s) :
    Announces t ("Running ".toList ++ ("tests/".toList ++ s))
  | plain {s : List Char} (hnone : ∀ s' t', s = "tests/".toList ++ s' → ¬ IsTarget t' s')
    (h : IsTarget t s) : Announces t ("Running ".toList ++ s)

/-- A word ends at white space. -/
theorem takeWhile_dropWhile_word {word : List Char} {c : Char}
    (hword : ∀ d ∈ word, isSpace d = false) (hc : isSpace c = true) (rest : List Char) :
    (word ++ c :: rest).takeWhile (fun c => !isSpace c) = word ∧
      (word ++ c :: rest).dropWhile (fun c => !isSpace c) = c :: rest := by
  have hall : ∀ d ∈ word, (!isSpace d) = true := fun d hd => by simpa using hword d hd
  rw [List.takeWhile_append_of_pos hall, List.dropWhile_append_of_pos hall]
  simp [hc]

theorem isSpace_of_mem_append_suffix (hword : ∀ c ∈ t, isSpace c = false) :
    ∀ c ∈ t ++ ".rs".toList, isSpace c = false := by
  have hsuffix : ∀ c ∈ ".rs".toList, isSpace c = false := by decide
  exact fun c hc => (List.mem_append.1 hc).elim (hword c) (hsuffix c)

/-- What fits is all up to white space, or that without a suffix. -/
theorem fits_iff : Fits t s ↔ t ≠ [] ∧ s.dropWhile (fun c => !isSpace c) ≠ [] ∧
    (s.takeWhile (fun c => !isSpace c) = t ∨
      s.takeWhile (fun c => !isSpace c) = t ++ ".rs".toList) := by
  constructor
  · rintro ⟨hne, hword, c, rest, hc, rfl | rfl⟩
    · obtain ⟨htake, hdrop⟩ := takeWhile_dropWhile_word hword hc rest
      exact ⟨hne, hdrop.trans_ne (List.cons_ne_nil c rest), .inl htake⟩
    · obtain ⟨htake, hdrop⟩ :=
        takeWhile_dropWhile_word (isSpace_of_mem_append_suffix hword) hc rest
      rw [← List.append_assoc]
      exact ⟨hne, hdrop.trans_ne (List.cons_ne_nil c rest), .inr htake⟩
  · rintro ⟨hne, hdrop, htake⟩
    have hhead := List.head?_dropWhile_not (fun c => !isSpace c) s
    have hsplit := List.takeWhile_append_dropWhile (p := fun c => !isSpace c) (l := s)
    have hword : ∀ d ∈ s.takeWhile (fun c => !isSpace c), isSpace d = false := fun d hd => by
      simpa using List.mem_takeWhile_imp hd
    obtain ⟨c, rest, hrest⟩ := List.exists_cons_of_ne_nil hdrop
    rw [hrest] at hhead hsplit
    have hc : isSpace c = true := by simpa using hhead
    rcases htake with htake | htake
    · rw [htake] at hsplit hword
      exact ⟨hne, hword, c, rest, hc, .inl hsplit.symm⟩
    · rw [htake] at hsplit hword
      refine ⟨hne, fun d hd => hword d (List.mem_append_left _ hd), c, rest, hc, .inr ?_⟩
      rw [← hsplit, List.append_assoc]

theorem target_of_suffix (hdrop : s.dropWhile (fun c => !isSpace c) ≠ []) (hne : t ≠ [])
    (hword : s.takeWhile (fun c => !isSpace c) = t ++ ".rs".toList) :
    target s = some (t, s.dropWhile fun c => !isSpace c) := by
  obtain ⟨b, behind, hbehind⟩ := List.exists_cons_of_ne_nil hdrop
  obtain ⟨c, stem, rfl⟩ := List.exists_cons_of_ne_nil hne
  simp only [target, hbehind, hword, dropSuffix?_append]
  rfl

theorem target_of_no_suffix (hdrop : s.dropWhile (fun c => !isSpace c) ≠ [])
    (hne : s.takeWhile (fun c => !isSpace c) ≠ [])
    (hnone : ∀ t, t ≠ [] → s.takeWhile (fun c => !isSpace c) ≠ t ++ ".rs".toList) :
    target s = some (s.takeWhile (fun c => !isSpace c), s.dropWhile fun c => !isSpace c) := by
  obtain ⟨b, behind, hbehind⟩ := List.exists_cons_of_ne_nil hdrop
  simp only [target, hbehind, List.isEmpty_eq_false_iff.2 hne, Bool.false_eq_true, if_false]
  split
  case h_1 c stem hstem =>
    exact absurd (eq_append_of_dropSuffix? hstem) (hnone _ (List.cons_ne_nil c stem))
  case h_2 => rfl

theorem target_of_isTarget (h : IsTarget t s) :
    target s = some (t, s.dropWhile fun c => !isSpace c) := by
  obtain ⟨hne, hdrop, rfl | hword⟩ := fits_iff.1 h.fits
  · refine target_of_no_suffix hdrop hne fun t' hne' hword => ?_
    have hshort := h.shortest t' (fits_iff.2 ⟨hne', hdrop, .inr hword⟩)
    rw [hword, List.length_append] at hshort
    exact absurd hshort (Nat.not_le.2 (Nat.lt_add_of_pos_right (by decide)))
  · exact target_of_suffix hdrop hne hword

/-- If a word fits at all, there is a shortest one. -/
theorem exists_isTarget (hdrop : s.dropWhile (fun c => !isSpace c) ≠ [])
    (hne : s.takeWhile (fun c => !isSpace c) ≠ []) : ∃ t, IsTarget t s := by
  by_cases hsuffix : ∃ t, t ≠ [] ∧ s.takeWhile (fun c => !isSpace c) = t ++ ".rs".toList
  · obtain ⟨t, hne', hword⟩ := hsuffix
    refine ⟨t, fits_iff.2 ⟨hne', hdrop, .inr hword⟩, fun t' hfits => ?_⟩
    obtain ⟨-, -, hword' | hword'⟩ := fits_iff.1 hfits
    · rw [← hword', hword, List.length_append]
      exact Nat.le_add_right _ _
    · rw [List.append_cancel_right (hword.symm.trans hword')]
  · refine ⟨_, fits_iff.2 ⟨hne, hdrop, .inl rfl⟩, fun t' hfits => ?_⟩
    obtain ⟨hne', -, hword' | hword'⟩ := fits_iff.1 hfits
    · rw [hword']
    · exact absurd ⟨t', hne', hword'⟩ hsuffix

theorem exists_target_iff : (∃ rest, target s = some (t, rest)) ↔ IsTarget t s := by
  constructor
  · rintro ⟨rest, h⟩
    have hdrop : s.dropWhile (fun c => !isSpace c) ≠ [] := by
      intro hnil
      simp [target, hnil] at h
    have hne : s.takeWhile (fun c => !isSpace c) ≠ [] := by
      intro hnil
      obtain ⟨b, behind, hbehind⟩ := List.exists_cons_of_ne_nil hdrop
      simp [target, hbehind, hnil] at h
    obtain ⟨t', ht'⟩ := exists_isTarget hdrop hne
    rw [target_of_isTarget ht'] at h
    obtain ⟨rfl, -⟩ := Prod.mk.inj (Option.some.inj h)
    exact ht'
  · intro h
    exact ⟨_, target_of_isTarget h⟩

theorem exists_announcement_iff : (∃ rest, announcement s = some (t, rest)) ↔ Announces t s := by
  constructor
  · rintro ⟨rest, h⟩
    simp only [announcement, Option.bind_eq_bind, Option.bind_eq_some_iff,
      Option.or_eq_some_iff] at h
    obtain ⟨body, hbody, ⟨below, hbelow, h⟩ | ⟨hnone, h⟩⟩ := h
    · rw [eq_append_of_after? hbody, eq_append_of_after? hbelow]
      exact .inTests (exists_target_iff.1 ⟨rest, h⟩)
    · rw [eq_append_of_after? hbody]
      refine .plain (fun below t' heq hbelow => ?_) (exists_target_iff.1 ⟨rest, h⟩)
      rw [heq, after?_append, Option.bind_some, target_of_isTarget hbelow] at hnone
      cases hnone
  · rintro (h | ⟨hnone, h⟩)
    · obtain ⟨rest, hfound⟩ := exists_target_iff.2 h
      refine ⟨rest, ?_⟩
      rw [announcement, after?_append, Option.bind_eq_bind, Option.bind_some, after?_append,
        Option.bind_some, hfound, Option.some_or]
    · obtain ⟨rest, hfound⟩ := exists_target_iff.2 h
      refine ⟨rest, ?_⟩
      rw [announcement, after?_append, Option.bind_eq_bind, Option.bind_some, hfound]
      refine Option.or_eq_some_iff.2 (.inr ⟨?_, rfl⟩)
      rw [Option.bind_eq_none_iff]
      intro below hbelow
      rw [Option.eq_none_iff_forall_ne_some]
      rintro ⟨t', rest'⟩ hfound'
      exact hnone below t' (eq_append_of_after? hbelow) (exists_target_iff.1 ⟨rest', hfound'⟩)

/-- A line announces the suite of the target that is first announced in it. -/
theorem announced?_eq_some_iff {line : List Char} : announced? line = some name ↔
    ∃ t, BeginsFirst Announces t line ∧ name = String.ofList (normalName t) := by
  rw [announced?, Option.map_eq_some_iff]
  simp only [firstMatch_eq_some_iff exists_announcement_iff, eq_comm]

end Announced

section SummedUp

variable {s line digits rest : List Char} {x : Summary}

namespace Run

/-- How a runner writes a status. -/
def statusText : Status → List Char
  | .pass => "ok.".toList
  | .fail => "FAILED.".toList

end Run

/-- White space, a number, and a word stand between two texts. -/
structure CountBefore (word digits s rest : List Char) : Prop where
  number : digits ≠ [] ∧ ∀ c ∈ digits, isDigit c = true
  gap : ∃ gap, gap ≠ [] ∧ (∀ c ∈ gap, isSpace c = true) ∧ s = gap ++ (digits ++ (word ++ rest))

/-- The text begins with a summary. -/
def SumsUp (x : Summary) (s : List Char) : Prop :=
  ∃ counts behindPassed behindFailed rest,
    s = "test result: ".toList ++ (Run.statusText x.status ++ counts) ∧
      CountBefore " passed;".toList x.passed counts behindPassed ∧
      CountBefore " failed;".toList x.failed behindPassed behindFailed ∧
      CountBefore " ignored".toList x.ignored behindFailed rest

theorem statusWord_eq_some_iff {status : Status} :
    statusWord s = some (status, rest) ↔ s = Run.statusText status ++ rest := by
  constructor
  · intro h
    unfold statusWord at h
    split at h
    case h_1 behind hok =>
      obtain ⟨rfl, rfl⟩ := Prod.mk.inj (Option.some.inj h)
      exact eq_append_of_after? hok
    case h_2 =>
      obtain ⟨behind, hfailed, heq⟩ := Option.map_eq_some_iff.1 h
      obtain ⟨rfl, rfl⟩ := Prod.mk.inj heq
      exact eq_append_of_after? hfailed
  · rintro rfl
    cases status with
    | pass => rfl
    | fail => rfl

/-- A number ends where its word begins. -/
theorem countBefore_eq_some_iff {word : String} {tail : List Char}
    (hword : word.toList = ' ' :: tail) :
    countBefore word.toList s = some (digits, rest) ↔ CountBefore word.toList digits s rest := by
  constructor
  · intro h
    simp only [countBefore] at h
    split at h
    case isTrue => cases h
    case isFalse hthere =>
      simp only [Bool.or_eq_true, Bool.not_eq_true', not_or, Bool.not_eq_false,
        Bool.not_eq_true, List.isEmpty_eq_false_iff] at hthere
      obtain ⟨hhead, hdigits⟩ := hthere
      obtain ⟨behind, hbehind, heq⟩ := Option.bind_eq_some_iff.1 h
      obtain ⟨rfl, rfl⟩ := Prod.mk.inj (Option.some.inj heq)
      refine ⟨⟨hdigits, fun c hc => List.mem_takeWhile_imp hc⟩, s.takeWhile isSpace, ?_,
        fun c hc => List.mem_takeWhile_imp hc, ?_⟩
      · cases s with
        | nil => simp at hhead
        | cons c s =>
          rw [List.takeWhile_cons_of_pos (by simpa using hhead)]
          exact List.cons_ne_nil _ _
      · rw [← eq_append_of_after? hbehind, List.takeWhile_append_dropWhile,
          List.takeWhile_append_dropWhile]
  · rintro ⟨⟨hne, hdigits⟩, gap, hgap, hspace, rfl⟩
    obtain ⟨c, number, rfl⟩ := List.exists_cons_of_ne_nil hne
    obtain ⟨b, blanks, rfl⟩ := List.exists_cons_of_ne_nil hgap
    have hc : isSpace c = false := isSpace_eq_false_of_isDigit (hdigits c List.mem_cons_self)
    have hdrop : (b :: blanks ++ (c :: number ++ (word.toList ++ rest))).dropWhile isSpace =
        c :: number ++ (word.toList ++ rest) := by
      rw [List.dropWhile_append_of_pos hspace, List.cons_append,
        List.dropWhile_cons_of_neg (by simp [hc])]
    have hnone : (word.toList ++ rest).takeWhile isDigit = [] := by rw [hword]; rfl
    have hsome : (word.toList ++ rest).dropWhile isDigit = word.toList ++ rest := by
      rw [hword]; rfl
    have hhead : (b :: blanks ++ (c :: number ++ (word.toList ++ rest))).head?.any isSpace = true :=
      hspace b List.mem_cons_self
    simp only [countBefore, hdrop, hhead, List.takeWhile_append_of_pos hdigits,
      List.dropWhile_append_of_pos hdigits, hnone, hsome, List.append_nil, after?_append]
    rfl

theorem exists_summary_iff : (∃ rest, summary s = some (x, rest)) ↔ SumsUp x s := by
  have hpassed : " passed;".toList = ' ' :: "passed;".toList := by decide
  have hfailed : " failed;".toList = ' ' :: "failed;".toList := by decide
  have hignored : " ignored".toList = ' ' :: "ignored".toList := by decide
  simp only [summary, Option.bind_eq_bind, Option.bind_eq_some_iff, Prod.exists,
    statusWord_eq_some_iff, countBefore_eq_some_iff hpassed, countBefore_eq_some_iff hfailed,
    countBefore_eq_some_iff hignored]
  constructor
  · rintro ⟨rest, body, hbody, status, counts, rfl, passed, behindPassed, hp, failed, behindFailed,
      hf, ignored, behind, hi, heq⟩
    obtain ⟨rfl, rfl⟩ := Prod.mk.inj (Option.some.inj heq)
    exact ⟨counts, behindPassed, behindFailed, _, eq_append_of_after? hbody, hp, hf, hi⟩
  · rintro ⟨counts, behindPassed, behindFailed, rest, rfl, hp, hf, hi⟩
    exact ⟨rest, _, after?_append _ _, x.status, counts, rfl, x.passed, behindPassed, hp, x.failed,
      behindFailed, hf, x.ignored, rest, hi, rfl⟩

/-- A line sums up what the first summary in it says. -/
theorem summary?_eq_some_iff : summary? line = some x ↔ BeginsFirst SumsUp x line :=
  firstMatch_eq_some_iff exists_summary_iff

end SummedUp

end ReleaseGate.Suite
