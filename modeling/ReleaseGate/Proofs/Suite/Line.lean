import Mathlib.Data.List.Chain
import ReleaseGate.Proofs.Suite.Recognised

/-!
# Lines of a test runner

A run of a suite as a runner reports it: one line that announces it and one that sums it up. Neither
line is taken for the other, and what is read from them is the name and the result of the run.
-/
namespace ReleaseGate.Suite

open Text

/-- A run as its runner reports it. The counts behind the first three are not read. -/
structure Run where
  name : String
  hash : String
  status : Status
  passed : Nat
  failed : Nat
  ignored : Nat
  measured : Nat
  filteredOut : Nat

namespace Run

def announcementLine (r : Run) : List Char :=
  "     Running tests/".toList ++ (r.name.toList ++ (".rs (target/debug/deps/".toList ++
    (r.name.toList ++ '-' :: (r.hash.toList ++ [')']))))

def countText (n : Nat) (word : String) : List Char :=
  ' ' :: (Nat.toDigits 10 n ++ word.toList)

def summaryLine (r : Run) : List Char :=
  "test result: ".toList ++ (statusText r.status ++ (countText r.passed " passed;" ++
    (countText r.failed " failed;" ++ (countText r.ignored " ignored" ++
      ';' :: (countText r.measured " measured;" ++ countText r.filteredOut " filtered out")))))

/-- The result that the run stands for. -/
def result (r : Run) : Result where
  status := r.status
  passed := r.passed.toUInt64
  failed := r.failed.toUInt64
  ignored := r.ignored.toUInt64
  total := (r.passed + r.failed + r.ignored).toUInt64

/-- The name is one that is left alone when a target is cut down to the name of its suite. -/
@[mk_iff]
structure IsProper (r : Run) : Prop where
  name_ne : r.name ≠ ""
  name_char : ∀ c ∈ r.name.toList, isSpace c = false ∧ c ≠ '/' ∧ c ≠ '-'
  name_suffix : ¬ ".rs".toList <:+ r.name.toList
  hash_char : ∀ c ∈ r.hash.toList, isSpace c = false
  total_lt : r.passed + r.failed + r.ignored < UInt64.size

instance (r : Run) : Decidable r.IsProper :=
  decidable_of_iff _ (isProper_iff r).symm

end Run

theorem normalName_eq_takeWhile {t : List Char} (hslash : ∀ c ∈ t, c ≠ '/')
    (hsuffix : ¬ ".rs".toList <:+ t) : normalName t = t.takeWhile (· != '-') := by
  have hwhole : ∀ c ∈ t.reverse, (c != '/') = true := fun c hc => by
    simpa using hslash c (List.mem_reverse.1 hc)
  rw [normalName, List.takeWhile_eq_self_iff.2 hwhole, List.reverse_reverse]
  simp only [dropSuffix?_eq_none hsuffix, Option.getD_none]

/-- No `t` stands directly before a blank. -/
def IsApart (s : List Char) : Prop :=
  s.IsChain fun a b => b = ' ' → a ≠ 't'

instance (s : List Char) : Decidable (IsApart s) :=
  inferInstanceAs (Decidable (s.IsChain fun a b => b = ' ' → a ≠ 't'))

theorem isApart_of_forall_ne {s : List Char} (h : ∀ c ∈ s, c ≠ ' ') : IsApart s :=
  (List.pairwise_of_forall_mem_list fun _ _ b hb he => absurd he (h b hb)).isChain

theorem IsApart.of_isInfix {a b : List Char} (hb : IsApart b) (h : a <:+: b) : IsApart a :=
  List.IsChain.infix hb h

theorem IsApart.append {a b : List Char} (ha : IsApart a) (hb : IsApart b)
    (hhead : ∀ c ∈ b.head?, c ≠ ' ') : IsApart (a ++ b) :=
  List.isChain_append.2 ⟨ha, hb, fun _ _ c hc he => absurd he (hhead c hc)⟩

/-- Blanks are the only white space of the text. -/
def IsBlankSpaced (s : List Char) : Prop :=
  ∀ c ∈ s, c = ' ' ∨ isSpace c = false

instance (s : List Char) : Decidable (IsBlankSpaced s) :=
  inferInstanceAs (Decidable (∀ c ∈ s, _))

theorem IsBlankSpaced.append {a b : List Char} (ha : IsBlankSpaced a) (hb : IsBlankSpaced b) :
    IsBlankSpaced (a ++ b) :=
  fun c hc => (List.mem_append.1 hc).elim (ha c) (hb c)

theorem IsBlankSpaced.cons {c : Char} {s : List Char} (hc : c = ' ' ∨ isSpace c = false)
    (hs : IsBlankSpaced s) : IsBlankSpaced (c :: s) :=
  List.forall_mem_cons.2 ⟨hc, hs⟩

namespace Run

variable {r : Run}

/-- The name of a suite is its own normal form. -/
theorem normalName_name (h : r.IsProper) : normalName r.name.toList = r.name.toList := by
  have hhyphen : ∀ c ∈ r.name.toList, (c != '-') = true := by
    intro c hc
    simpa using (h.name_char c hc).2.2
  rw [normalName_eq_takeWhile (fun c hc => (h.name_char c hc).2.1) h.name_suffix,
    List.takeWhile_eq_self_iff.2 hhyphen]

theorem target_name (h : r.IsProper) (rest : List Char) :
    target (r.name.toList ++ (".rs".toList ++ ' ' :: rest)) =
      some (r.name.toList, ' ' :: rest) := by
  have hname : r.name.toList ≠ [] := fun hnil => h.name_ne (String.toList_eq_nil_iff.1 hnil)
  obtain ⟨htake, hdrop⟩ := takeWhile_dropWhile_word
    (isSpace_of_mem_append_suffix fun c hc => (h.name_char c hc).1) (c := ' ') rfl rest
  rw [← List.append_assoc,
    target_of_suffix (hdrop.trans_ne (List.cons_ne_nil _ _)) hname htake, hdrop]

theorem announced?_announcementLine (h : r.IsProper) :
    announced? r.announcementLine = some r.name := by
  obtain ⟨rest, hline⟩ : ∃ rest, r.announcementLine = "     ".toList ++ ("Running ".toList ++
      ("tests/".toList ++ (r.name.toList ++ (".rs".toList ++ ' ' :: rest)))) :=
    ⟨"(target/debug/deps/".toList ++ (r.name.toList ++ '-' :: (r.hash.toList ++ [')'])), rfl⟩
  have hmatch : ∀ rest, announcement ("Running ".toList ++ ("tests/".toList ++ (r.name.toList ++
      (".rs".toList ++ ' ' :: rest)))) = some (r.name.toList, ' ' :: rest) := by
    intro rest
    rw [announcement, after?_append, Option.bind_eq_bind, Option.bind_some, after?_append,
      Option.bind_some, target_name h, Option.some_or]
  have hblanks : ∀ s, firstMatch announcement ("     ".toList ++ s) = firstMatch announcement s :=
    fun s => rfl
  rw [announced?, hline, hblanks, firstMatch_of_eq_some (hmatch rest), Option.map_some,
    normalName_name h, String.ofList_toList]

example : Run.announcementLine ⟨"parity", "0a1b", .pass, 12, 0, 1, 0, 3⟩ =
    "     Running tests/parity.rs (target/debug/deps/parity-0a1b)".toList := by decide

/-- The first word of a summary ends in a `t`, and no word of an announcement that a blank follows
does. -/
theorem summary?_announcementLine (h : r.IsProper) : summary? r.announcementLine = none := by
  have hname : ∀ c ∈ r.name.toList, c ≠ ' ' := by
    rintro c hc rfl
    exact absurd (h.name_char ' ' hc).1 (by decide)
  have hhash : ∀ c ∈ r.hash.toList, c ≠ ' ' := by
    rintro c hc rfl
    exact absurd (h.hash_char ' ' hc) (by decide)
  have hlast : ∀ c ∈ r.name.toList ++ '-' :: (r.hash.toList ++ [')']), c ≠ ' ' := by
    intro c hc
    simp only [List.mem_append, List.mem_cons, List.not_mem_nil, or_false] at hc
    rcases hc with hc | rfl | hc | rfl
    · exact hname c hc
    · decide
    · exact hhash c hc
    · decide
  have hfront : ∀ rest, ∀ c ∈ (r.name.toList ++ (".rs (target/debug/deps/".toList ++ rest)).head?,
      c ≠ ' ' := by
    intro rest c hc
    cases hn : r.name.toList with
    | nil => exact absurd (String.toList_eq_nil_iff.1 hn) h.name_ne
    | cons d s =>
      rw [hn] at hc hname
      obtain rfl : d = c := by simpa using hc
      exact hname d List.mem_cons_self
  have happart : IsApart r.announcementLine := by
    refine IsApart.append (by decide) ((isApart_of_forall_ne hname).append
      (IsApart.append (by decide) (isApart_of_forall_ne hlast) ?_) ?_) (hfront _)
    · exact fun c hc => hlast c (List.mem_of_mem_head? hc)
    · rintro c ⟨⟩
      decide
  have hword : ¬ "test result: ".toList <:+: r.announcementLine := fun hpart =>
    absurd (happart.of_isInfix hpart) (by decide)
  exact firstMatch_eq_none_of_word (fun s => Option.isSome_of_isSome_bind) hword

theorem not_mem_countText (n : Nat) {word : String} (hword : 'R' ∉ word.toList) :
    'R' ∉ countText n word := by
  have hdigits : 'R' ∉ Nat.toDigits 10 n := fun hmem =>
    absurd (isDigit_toDigits hmem) (by decide)
  exact List.not_mem_cons_of_ne_of_not_mem (by decide) (List.not_mem_append hdigits hword)

/-- There is no capital `R` in a summary. -/
theorem announced?_summaryLine (r : Run) : announced? r.summaryLine = none := by
  have hstatus : 'R' ∉ statusText r.status := by
    cases r.status with
    | pass => decide
    | fail => decide
  have hbehind : 'R' ∉ ';' :: (countText r.measured " measured;" ++
      countText r.filteredOut " filtered out") :=
    List.not_mem_cons_of_ne_of_not_mem (by decide)
      (List.not_mem_append (not_mem_countText _ (by decide)) (not_mem_countText _ (by decide)))
  have hnot : 'R' ∉ r.summaryLine :=
    List.not_mem_append (by decide) (List.not_mem_append hstatus
      (List.not_mem_append (not_mem_countText _ (by decide))
        (List.not_mem_append (not_mem_countText _ (by decide))
          (List.not_mem_append (not_mem_countText _ (by decide)) hbehind))))
  have hword : ¬ "Running ".toList <:+: r.summaryLine := fun hpart =>
    hnot (hpart.subset (by decide))
  have hnone : firstMatch announcement r.summaryLine = none :=
    firstMatch_eq_none_of_word (fun s => Option.isSome_of_isSome_bind) hword
  rw [announced?, hnone, Option.map_none]

/-- A count has one blank before it. -/
theorem countBefore_countText (n : Nat) (word : String) (rest : List Char) :
    CountBefore word.toList (Nat.toDigits 10 n) (countText n word ++ rest) rest where
  number := ⟨Nat.toDigits_ne_nil, fun _ hc => isDigit_of_isDigit (isDigit_toDigits hc)⟩
  gap := ⟨[' '], List.cons_ne_nil _ _, by decide, by simp [countText]⟩

theorem summary?_summaryLine (r : Run) :
    summary? r.summaryLine = some ⟨r.status, Nat.toDigits 10 r.passed, Nat.toDigits 10 r.failed,
      Nat.toDigits 10 r.ignored⟩ :=
  summary?_eq_some_iff.2 (.of_begins ⟨_, _, _, _, rfl, countBefore_countText _ _ _,
    countBefore_countText _ _ _, countBefore_countText _ _ _⟩)

example : Run.summaryLine ⟨"parity", "0a1b", .pass, 12, 0, 1, 0, 3⟩ =
    "test result: ok. 12 passed; 0 failed; 1 ignored; 0 measured; 3 filtered out".toList := by
  decide

theorem spells_toDigits (n : Nat) : Spells (Nat.toDigits 10 n) n := by
  refine ⟨fun c => isDigit_toDigits, ?_⟩
  rw [List.map_reverse, ← foldl_eq_ofDigits, List.foldl_map, foldl_toDigits]

/-- What the summary line reports. -/
theorem result?_summary (hlt : r.passed + r.failed + r.ignored < UInt64.size) :
    (Summary.mk r.status (Nat.toDigits 10 r.passed) (Nat.toDigits 10 r.failed)
      (Nat.toDigits 10 r.ignored)).result? = some r.result := by
  rw [Summary.result?_eq_some_iff]
  have hword : ∀ n, n ≤ r.passed + r.failed + r.ignored → n.toUInt64.toNat = n := fun n hn =>
    UInt64.toNat_ofNat_of_lt' (hn.trans_lt hlt)
  constructor
  · rfl
  · rw [result, hword _ (by omega)]
    exact spells_toDigits _
  · rw [result, hword _ (by omega)]
    exact spells_toDigits _
  · rw [result, hword _ (by omega)]
    exact spells_toDigits _
  · simp only [result]
    rw [hword _ le_rfl, hword _ (by omega), hword _ (by omega), hword _ (by omega)]

theorem isBlankSpaced_announcementLine (h : r.IsProper) : IsBlankSpaced r.announcementLine := by
  have hname : IsBlankSpaced r.name.toList := fun c hc => .inr (h.name_char c hc).1
  have hhash : IsBlankSpaced r.hash.toList := fun c hc => .inr (h.hash_char c hc)
  have hlast : IsBlankSpaced ('-' :: (r.hash.toList ++ [')'])) :=
    .cons (.inr rfl) (hhash.append (by decide))
  exact IsBlankSpaced.append (by decide) (hname.append
    (IsBlankSpaced.append (by decide) (hname.append hlast)))

theorem isBlankSpaced_countText (n : Nat) {word : String} (hword : IsBlankSpaced word.toList) :
    IsBlankSpaced (countText n word) := by
  have hdigits : IsBlankSpaced (Nat.toDigits 10 n) := fun c hc =>
    .inr (isSpace_of_isDigit (isDigit_toDigits hc))
  exact .cons (.inl rfl) (hdigits.append hword)

theorem isBlankSpaced_summaryLine (r : Run) : IsBlankSpaced r.summaryLine := by
  have hstatus : IsBlankSpaced (statusText r.status) := by
    cases r.status with
    | pass => decide
    | fail => decide
  have hbehind : IsBlankSpaced (';' :: (countText r.measured " measured;" ++
      countText r.filteredOut " filtered out")) :=
    .cons (.inr rfl) ((isBlankSpaced_countText _ (by decide)).append
      (isBlankSpaced_countText _ (by decide)))
  exact IsBlankSpaced.append (by decide) (hstatus.append
    ((isBlankSpaced_countText _ (by decide)).append
      ((isBlankSpaced_countText _ (by decide)).append
        ((isBlankSpaced_countText _ (by decide)).append hbehind))))

end Run

end ReleaseGate.Suite
