import Mathlib.Data.List.Basic
import ReleaseGate.Text.Line

/-!
# Cutting texts into lines

Every text that is not empty begins with a line that holds no break, and behind that line the text
ends or one terminator stands. Where a text is cut right behind a terminator, its lines are those of
the two parts.
-/
namespace ReleaseGate.Text

/-- The characters that end a physical line, by name. -/
def lineBreaks : List Char :=
  ['\n', '\x0B', '\x0C', '\r', '\x1C', '\x1D', '\x1E', '\u0085', '\u2028', '\u2029']

theorem isLineBreak_iff {c : Char} : isLineBreak c = true ↔ c ∈ lineBreaks := by
  have hcode : ∀ d : Char, c = d ↔ c.toNat = d.toNat := fun d => Char.toNat_inj.symm
  simp only [isLineBreak, lineBreaks, List.mem_cons, List.not_mem_nil, or_false, hcode,
    Bool.or_eq_true, Bool.and_eq_true, decide_eq_true_eq, beq_iff_eq]
  constructor
  · intro h
    simp only [Char.reduceToNat]
    omega
  · intro h
    simp only [Char.reduceToNat] at h
    omega

/-- A carriage return that a line feed follows directly. -/
def IsPair (c : Char) (rest : List Char) : Prop :=
  ∃ tail, c = '\r' ∧ rest = '\n' :: tail

variable {isBreak : Char → Bool} {c : Char} {rest : List Char}

theorem splitLines_pair (rest : List Char) :
    splitLines isBreak ('\r' :: '\n' :: rest) = [] :: splitLines isBreak rest := by
  rw [splitLines]

theorem splitLines_break (hc : isBreak c = true) (hpair : ¬ IsPair c rest) :
    splitLines isBreak (c :: rest) = [] :: splitLines isBreak rest := by
  rw [splitLines, if_pos hc]
  exact fun tail hr hn => hpair ⟨tail, hr, hn⟩

/-- A character that is no break stands at the front of the first line. -/
theorem splitLines_cons {line : List Char} {lines : List (List Char)} (hc : isBreak c = false)
    (hpair : ¬ IsPair c rest) (h : splitLines isBreak rest = line :: lines) :
    splitLines isBreak (c :: rest) = (c :: line) :: lines := by
  rw [splitLines, hc, h]
  · rfl
  · exact fun tail hr hn => hpair ⟨tail, hr, hn⟩

theorem splitLines_singleton (hc : isBreak c = false) : splitLines isBreak [c] = [[c]] := by
  rw [splitLines, hc, splitLines_nil]
  · rfl
  · simp

theorem splitLines_eq_nil_iff {s : List Char} : splitLines isBreak s = [] ↔ s = [] := by
  constructor
  · intro h
    fun_cases splitLines isBreak s with
    | case1 => rfl
    | case2 tail => simp [splitLines_pair] at h
    | case3 c tail hpair hc =>
      rw [splitLines_break hc fun ⟨t, hr, hn⟩ => hpair t hr hn] at h
      simp at h
    | case4 c tail hpair hc hnil => simp_all [splitLines]
    | case5 c tail hpair hc line lines hlines =>
      rw [splitLines_cons (by simpa using hc) (fun ⟨t, hr, hn⟩ => hpair t hr hn) hlines] at h
      simp at h
  · rintro rfl
    exact splitLines_nil isBreak

/-- A text that is empty or ends in a break, and whose last carriage return is not torn from its
line feed by what comes after it. -/
def EndsBefore (isBreak : Char → Bool) (a b : List Char) : Prop :=
  ∀ c ∈ a.getLast?, isBreak c = true ∧ ¬ IsPair c b

theorem EndsBefore.tail {a b : List Char} (h : EndsBefore isBreak (c :: a) b) :
    EndsBefore isBreak a b := by
  intro d hd
  cases a with
  | nil => simp at hd
  | cons e a => exact h d (by rwa [List.getLast?_cons_cons])

/-- What is appended makes no pair with a carriage return that is alone. -/
theorem EndsBefore.not_isPair {a b : List Char} (h : EndsBefore isBreak (c :: a) b)
    (hc : ¬ IsPair c a) : ¬ IsPair c (a ++ b) := by
  cases a with
  | nil => exact (h c rfl).2
  | cons e a =>
    rintro ⟨tail, hr, hn⟩
    exact hc ⟨a, hr, by rw [(List.cons.inj hn).1]⟩

/-- The lines of a text that is cut behind a terminator. -/
theorem splitLines_append {a b : List Char} (h : EndsBefore isBreak a b) :
    splitLines isBreak (a ++ b) = splitLines isBreak a ++ splitLines isBreak b := by
  fun_induction splitLines isBreak a with
  | case1 => rfl
  | case2 rest ih =>
    rw [List.cons_append, List.cons_append, splitLines_pair, ih h.tail.tail, List.cons_append]
  | case3 c rest hpair hc ih =>
    have hnot : ¬ IsPair c rest := fun ⟨tail, hr, hn⟩ => hpair tail hr hn
    rw [List.cons_append, splitLines_break hc (h.not_isPair hnot), ih h.tail, List.cons_append]
  | case4 c rest hpair hc hnil ih =>
    obtain rfl := splitLines_eq_nil_iff.1 hnil
    exact absurd (h c rfl).1 hc
  | case5 c rest hpair hc line lines hlines ih =>
    have hnot : ¬ IsPair c rest := fun ⟨tail, hr, hn⟩ => hpair tail hr hn
    have htail := ih h.tail
    rw [hlines, List.cons_append] at htail
    rw [List.cons_append, splitLines_cons (by simpa using hc) (h.not_isPair hnot) htail,
      List.cons_append]

/-- What ends a line before a rest of the text: a pair, or a break that is no half of one. -/
inductive Terminates (isBreak : Char → Bool) : List Char → List Char → Prop
  | pair (rest : List Char) : Terminates isBreak ['\r', '\n'] rest
  | single {c : Char} {rest : List Char} (hc : isBreak c = true) (hpair : ¬ IsPair c rest) :
    Terminates isBreak [c] rest

/-- No character of the text ends a line. -/
def Unbroken (isBreak : Char → Bool) (line : List Char) : Prop :=
  ∀ c ∈ line, isBreak c = false ∧ c ≠ '\r'

theorem Unbroken.tail {line : List Char} (h : Unbroken isBreak (c :: line)) :
    Unbroken isBreak line :=
  fun d hd => h d (List.mem_cons_of_mem c hd)

theorem Unbroken.not_isPair {line : List Char} (h : Unbroken isBreak (c :: line))
    (rest : List Char) : ¬ IsPair c rest :=
  fun ⟨_, hr, _⟩ => (h c List.mem_cons_self).2 hr

theorem splitLines_terminated {line t rest : List Char} (hline : Unbroken isBreak line)
    (ht : Terminates isBreak t rest) :
    splitLines isBreak (line ++ (t ++ rest)) = line :: splitLines isBreak rest := by
  induction line with
  | nil =>
    cases ht with
    | pair => exact splitLines_pair rest
    | single hc hpair => exact splitLines_break hc hpair
  | cons c line ih =>
    exact splitLines_cons (hline c List.mem_cons_self).1 (hline.not_isPair _) (ih hline.tail)

theorem splitLines_unbroken {line : List Char} (hline : Unbroken isBreak line) (hne : line ≠ []) :
    splitLines isBreak line = [line] := by
  induction line with
  | nil => exact absurd rfl hne
  | cons c line ih =>
    have hc := (hline c List.mem_cons_self).1
    cases line with
    | nil => exact splitLines_singleton hc
    | cons d line => exact splitLines_cons hc (hline.not_isPair _) (ih hline.tail (by simp))

theorem ne_return_of_not_isLineBreak (h : isLineBreak c = false) : c ≠ '\r' := by
  rintro rfl
  exact absurd h (by decide)

/-- A text has one line at most and no break, or a first line and a terminator behind it. -/
theorem unbroken_or_exists_line (s : List Char) :
    Unbroken isLineBreak s ∨ ∃ line t rest, s = line ++ (t ++ rest) ∧
      Unbroken isLineBreak line ∧ Terminates isLineBreak t rest := by
  induction s with
  | nil => exact .inl fun c hc => absurd hc List.not_mem_nil
  | cons c s ih =>
    cases hc : isLineBreak c with
    | true =>
      right
      by_cases hpair : IsPair c s
      · obtain ⟨tail, rfl, rfl⟩ := hpair
        exact ⟨[], _, tail, rfl, fun c hc => absurd hc List.not_mem_nil, .pair tail⟩
      · exact ⟨[], _, s, rfl, fun c hc => absurd hc List.not_mem_nil, .single hc hpair⟩
    | false =>
      have hcons : ∀ line, Unbroken isLineBreak line → Unbroken isLineBreak (c :: line) := by
        intro line hline d hd
        rcases List.mem_cons.1 hd with rfl | hd
        · exact ⟨hc, ne_return_of_not_isLineBreak hc⟩
        · exact hline d hd
      rcases ih with hs | ⟨line, t, rest, rfl, hline, ht⟩
      · exact .inl (hcons s hs)
      · exact .inr ⟨c :: line, t, rest, rfl, hcons line hline, ht⟩

/-- Texts are built line by line from the end. -/
theorem lines_induction {motive : List Char → Prop} (nil : motive [])
    (last : ∀ line, line ≠ [] → Unbroken isLineBreak line → motive line)
    (line : ∀ line t rest, Unbroken isLineBreak line → Terminates isLineBreak t rest →
      motive rest → motive (line ++ (t ++ rest))) (s : List Char) : motive s := by
  induction hn : s.length using Nat.strongRecOn generalizing s with
  | ind n ih =>
    rcases unbroken_or_exists_line s with hs | ⟨first, t, rest, rfl, hfirst, ht⟩
    · by_cases hne : s = []
      · exact hne ▸ nil
      · exact last s hne hs
    · refine line first t rest hfirst ht (ih rest.length ?_ rest rfl)
      have hpos : 0 < t.length := by cases ht <;> simp
      simp only [List.length_append] at hn
      omega

end ReleaseGate.Text
