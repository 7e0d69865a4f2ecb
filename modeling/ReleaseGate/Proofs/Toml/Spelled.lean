import Mathlib.Data.List.DropRight
import Mathlib.Data.List.Forall2
import Mathlib.Tactic.IntervalCases
import ReleaseGate.Toml.Text

/-!
# Spelled texts and names

A text between quotes can be spelled in many ways, and a name in more. Each way is a relation
between what is said, a text that begins by saying it, and the rest of that text. What is spelled
is read as what it says.
-/
namespace ReleaseGate.Toml

open ReleaseGate.Text

/-- A hexadecimal digit of either case. -/
def IsHexDigit (d : ℕ) (c : Char) : Prop :=
  d < 16 ∧ (c = d.digitChar ∨ c = d.digitChar.toUpper)

theorem hexValue?_of_isHexDigit {d : ℕ} {c : Char} (h : IsHexDigit d c) : hexValue? c = some d := by
  obtain ⟨hd, rfl | rfl⟩ := h <;> interval_cases d <;> rfl

/-- The hexadecimal digits of a number, the leading one first. -/
def IsHex (n : ℕ) (digits : List Char) : Prop :=
  ∃ values, List.Forall₂ IsHexDigit values digits ∧ values.foldl (fun m d => m * 16 + d) 0 = n

theorem exists_isHex {k n : ℕ} (h : n < 16 ^ k) : ∃ digits, digits.length = k ∧ IsHex n digits := by
  induction k generalizing n with
  | zero => exact ⟨[], rfl, [], .nil, by simpa using (Nat.lt_one_iff.1 h).symm⟩
  | succ k ih =>
    obtain ⟨digits, hlength, values, hvalues, hsum⟩ := ih (n := n / 16) (by omega)
    have hlast : IsHexDigit (n % 16) (n % 16).digitChar := ⟨Nat.mod_lt n (by decide), .inl rfl⟩
    refine ⟨digits ++ [(n % 16).digitChar], by simp [hlength], values ++ [n % 16],
      List.rel_append hvalues (.cons hlast .nil), ?_⟩
    rw [List.foldl_append, hsum, List.foldl_cons, List.foldl_nil]
    omega

theorem mapM_hexValue? {values : List ℕ} {digits : List Char}
    (h : List.Forall₂ IsHexDigit values digits) : digits.mapM hexValue? = some values := by
  induction h with
  | nil => rfl
  | cons hd _ ih => simp [hexValue?_of_isHexDigit hd, ih]

theorem hexChar?_of_isHex {c : Char} {digits : List Char} (h : IsHex c.toNat digits) :
    hexChar? digits = some c := by
  obtain ⟨values, hvalues, hsum⟩ := h
  rw [hexChar?, mapM_hexValue? hvalues, Option.bind_eq_bind, Option.bind_some]
  exact hsum ▸ dif_pos c.valid

/-- The characters that a backslash and a letter stand for. -/
def letterEscapes : List (Char × Char) :=
  [('\x08', 'b'), ('\t', 't'), ('\n', 'n'), ('\x0C', 'f'), ('\r', 'r'), ('"', '"'), ('\\', '\\')]

/-- A text up to its closing double quote, where what cannot stand for itself is escaped. -/
inductive SpellsBasic : List Char → List Char → List Char → Prop
  | close {rest : List Char} : SpellsBasic [] ('"' :: rest) rest
  | plain {c : Char} {s t rest : List Char} (hplain : isPlain c) (hquote : c ≠ '"')
    (hslash : c ≠ '\\') (h : SpellsBasic s t rest) : SpellsBasic (c :: s) (c :: t) rest
  | letter {c l : Char} {s t rest : List Char} (hl : (c, l) ∈ letterEscapes)
    (h : SpellsBasic s t rest) : SpellsBasic (c :: s) ('\\' :: l :: t) rest
  | four {c : Char} {digits s t rest : List Char} (hlength : digits.length = 4)
    (hhex : IsHex c.toNat digits) (h : SpellsBasic s t rest) :
    SpellsBasic (c :: s) ('\\' :: 'u' :: (digits ++ t)) rest
  | eight {c : Char} {digits s t rest : List Char} (hlength : digits.length = 8)
    (hhex : IsHex c.toNat digits) (h : SpellsBasic s t rest) :
    SpellsBasic (c :: s) ('\\' :: 'U' :: (digits ++ t)) rest

theorem basicText_of_spells {s t rest : List Char} (h : SpellsBasic s t rest) :
    basicText t = some (s, rest) := by
  induction h with
  | close => simp [basicText]
  | plain hplain hquote hslash _ ih => simp [basicText, hplain, hslash, ih, consTo]
  | letter hl _ ih =>
    simp only [letterEscapes, List.mem_cons, Prod.mk.injEq, List.not_mem_nil, or_false] at hl
    rcases hl with ⟨rfl, rfl⟩ | ⟨rfl, rfl⟩ | ⟨rfl, rfl⟩ | ⟨rfl, rfl⟩ | ⟨rfl, rfl⟩ | ⟨rfl, rfl⟩ |
      ⟨rfl, rfl⟩ <;> simp [basicText, escaped?, ih, consTo]
  | @four _ digits _ _ _ hlength hhex _ ih =>
    match digits, hlength with
    | [_, _, _, _], _ => simp [basicText, hexChar?_of_isHex hhex, ih, consTo]
  | @eight _ digits _ _ _ hlength hhex _ ih =>
    match digits, hlength with
    | [_, _, _, _, _, _, _, _], _ => simp [basicText, hexChar?_of_isHex hhex, ih, consTo]

theorem SpellsBasic.isSuffix {s t rest : List Char} (h : SpellsBasic s t rest) : rest <:+ t := by
  induction h with
  | close => exact List.suffix_cons _ _
  | plain _ _ _ _ ih => exact ih.trans (List.suffix_cons _ _)
  | letter _ _ ih => exact ih.trans (List.suffix_append ['\\', _] _)
  | four _ _ _ ih => exact ih.trans (List.suffix_append ('\\' :: 'u' :: _) _)
  | eight _ _ _ ih => exact ih.trans (List.suffix_append ('\\' :: 'U' :: _) _)

theorem exists_spellsBasic (s rest : List Char) : ∃ t, SpellsBasic s t rest := by
  induction s with
  | nil => exact ⟨_, .close⟩
  | cons c s ih =>
    obtain ⟨t, ht⟩ := ih
    obtain ⟨digits, hlength, hhex⟩ := exists_isHex (k := 8) (n := c.toNat) c.val.toNat_lt
    exact ⟨_, .eight hlength hhex ht⟩

/-- A text up to its closing single quote, where everything stands for itself. -/
inductive SpellsLiteral : List Char → List Char → List Char → Prop
  | close {rest : List Char} : SpellsLiteral [] ('\'' :: rest) rest
  | plain {c : Char} {s t rest : List Char} (hplain : isPlain c) (hquote : c ≠ '\'')
    (h : SpellsLiteral s t rest) : SpellsLiteral (c :: s) (c :: t) rest

theorem literalText_of_spells {s t rest : List Char} (h : SpellsLiteral s t rest) :
    literalText t = some (s, rest) := by
  induction h with
  | close => simp [literalText]
  | plain hplain hquote _ ih => simp [literalText, hplain, hquote, ih, consTo]

theorem SpellsLiteral.isSuffix {s t rest : List Char} (h : SpellsLiteral s t rest) :
    rest <:+ t := by
  induction h with
  | close => exact List.suffix_cons _ _
  | plain _ _ _ ih => exact ih.trans (List.suffix_cons _ _)

inductive SpellsText (s : String) : List Char → List Char → Prop
  | basic {t rest : List Char} (h : SpellsBasic s.toList t rest) : SpellsText s ('"' :: t) rest
  | literal {t rest : List Char} (h : SpellsLiteral s.toList t rest) :
    SpellsText s ('\'' :: t) rest

/-- Behind an empty text no further quote may follow, or else three quotes open a text. -/
def Unquoted (s : List Char) : Prop :=
  ∀ c ∈ s.head?, c ≠ '"' ∧ c ≠ '\''

theorem quotedText_of_spells {s : String} {t rest : List Char} (h : SpellsText s t rest)
    (hrest : Unquoted rest) : quotedText t = some (s.toList, rest) := by
  cases h with
  | @basic t _ h =>
    have hthree : ∀ u, t ≠ '"' :: '"' :: u := by
      rintro u rfl
      generalize s.toList = content at h
      cases h with
      | close => exact (hrest '"' rfl).1 rfl
      | plain _ hquote => exact hquote rfl
    simp [quotedText, basicText_of_spells h]
  | @literal t _ h =>
    have hthree : ∀ u, t ≠ '\'' :: '\'' :: u := by
      rintro u rfl
      generalize s.toList = content at h
      cases h with
      | close => exact (hrest '\'' rfl).2 rfl
      | plain _ hquote => exact hquote rfl
    simp [quotedText, literalText_of_spells h]

theorem SpellsText.isSuffix {s : String} {t rest : List Char} (h : SpellsText s t rest) :
    rest <:+ t := by
  cases h with
  | basic h => exact h.isSuffix.trans (List.suffix_cons _ _)
  | literal h => exact h.isSuffix.trans (List.suffix_cons _ _)

theorem SpellsText.ne_bracket {s : String} {t rest : List Char} (h : SpellsText s t rest)
    (u : List Char) : t ≠ ']' :: u := by
  rintro rfl
  cases h

theorem exists_spellsText (s : String) (rest : List Char) : ∃ t, SpellsText s t rest :=
  have ⟨_, h⟩ := exists_spellsBasic s.toList rest
  ⟨_, .basic h⟩

/-- A name stands bare or between quotes. -/
inductive SpellsName (n : String) : List Char → List Char → Prop
  | bare {rest : List Char} (hne : n ≠ "") (hchars : ∀ c ∈ n.toList, isNameChar c) :
    SpellsName n (n.toList ++ rest) rest
  | quoted {t rest : List Char} (h : SpellsText n t rest) : SpellsName n t rest

theorem exists_spellsName (n : String) (rest : List Char) : ∃ t, SpellsName n t rest :=
  have ⟨_, h⟩ := exists_spellsText n rest
  ⟨_, .quoted h⟩

theorem simpleName_of_spells {n : String} {t rest : List Char} (h : SpellsName n t rest)
    (hrest : ∀ c ∈ rest.head?, isNameChar c = false) : simpleName t = some (n, rest) := by
  cases h with
  | bare hne hchars =>
    have htake : (n.toList ++ rest).takeWhile isNameChar = n.toList := by
      rw [List.takeWhile_append_of_pos hchars]
      cases rest with
      | nil => simp
      | cons c rest => simp [hrest c rfl]
    have hdrop : (n.toList ++ rest).dropWhile isNameChar = rest := by
      rw [List.dropWhile_append_of_pos hchars]
      cases rest with
      | nil => rfl
      | cons c rest => simp [hrest c rfl]
    have hquote : ∀ c u, isNameChar c = false → n.toList ++ rest ≠ c :: u := by
      intro c u hc he
      rw [he, List.takeWhile_cons_of_neg (by simp [hc])] at htake
      exact hne (String.toList_eq_nil_iff.1 htake.symm)
    have hbasic : ∀ u, n.toList ++ rest ≠ '"' :: u := fun u => hquote '"' u rfl
    have hliteral : ∀ u, n.toList ++ rest ≠ '\'' :: u := fun u => hquote '\'' u rfl
    simp [simpleName, htake, hdrop, hne]
  | quoted h =>
    cases h with
    | basic h => simp [simpleName, basicText_of_spells h]
    | literal h => simp [simpleName, literalText_of_spells h]

/-- What a name begins with. -/
def OpensName (c : Char) : Prop :=
  isNameChar c ∨ c = '"' ∨ c = '\''

instance (c : Char) : Decidable (OpensName c) :=
  inferInstanceAs (Decidable (_ ∨ _))

theorem OpensName.ne {c d : Char} (h : OpensName c) (hd : ¬ OpensName d) : c ≠ d :=
  fun he => hd (he ▸ h)

theorem SpellsName.exists_cons {n : String} {t rest : List Char} (h : SpellsName n t rest) :
    ∃ c u, t = c :: u ∧ OpensName c := by
  cases h with
  | bare hne hchars =>
    obtain ⟨c, u, hcons⟩ := List.exists_cons_of_ne_nil (mt String.toList_eq_nil_iff.1 hne)
    exact ⟨c, u ++ rest, by rw [hcons, List.cons_append],
      .inl (hchars c (by rw [hcons]; exact List.mem_cons_self))⟩
  | quoted h =>
    cases h with
    | basic => exact ⟨_, _, rfl, .inr (.inl rfl)⟩
    | literal => exact ⟨_, _, rfl, .inr (.inr rfl)⟩

theorem SpellsName.isSuffix {n : String} {t rest : List Char} (h : SpellsName n t rest) :
    rest <:+ t := by
  cases h with
  | bare => exact List.suffix_append _ _
  | quoted h => exact h.isSuffix

inductive Blanks : List Char → List Char → Prop
  | none {rest : List Char} : Blanks rest rest
  | blank {c : Char} {t rest : List Char} (hc : isBlankChar c) (h : Blanks t rest) :
    Blanks (c :: t) rest

theorem Blanks.skipBlanks_eq {t rest : List Char} (h : Blanks t rest) :
    skipBlanks t = skipBlanks rest := by
  induction h with
  | none => rfl
  | blank hc _ ih => rw [← ih, skipBlanks, List.dropWhile_cons_of_pos hc, skipBlanks]

theorem Blanks.mem_head? {c : Char} {t rest : List Char} (h : Blanks t rest) (hc : c ∈ t.head?) :
    isBlankChar c = true ∨ c ∈ rest.head? := by
  cases h with
  | none => exact .inr hc
  | blank hblank =>
    rw [List.head?_cons, Option.mem_some_iff] at hc
    exact .inl (hc ▸ hblank)

theorem Blanks.unquoted {t rest : List Char} (h : Blanks t rest) (hrest : Unquoted rest) :
    Unquoted t := by
  intro c hc
  rcases h.mem_head? hc with hblank | hc
  · constructor <;> rintro rfl <;> cases hblank
  · exact hrest c hc

theorem Blanks.isSuffix {t rest : List Char} (h : Blanks t rest) : rest <:+ t := by
  induction h with
  | none => exact List.suffix_rfl
  | blank _ _ ih => exact ih.trans (List.suffix_cons _ _)

theorem isNameChar_of_isBlankChar {c : Char} (h : isBlankChar c) : isNameChar c = false := by
  simp only [isBlankChar, Bool.or_eq_true, beq_iff_eq] at h
  rcases h with rfl | rfl <;> rfl

theorem skipBlanks_skipBlanks (s : List Char) : skipBlanks (skipBlanks s) = skipBlanks s :=
  List.dropWhile_idempotent _ s

theorem skipBlanks_cons {c : Char} (h : isBlankChar c = false) (s : List Char) :
    skipBlanks (c :: s) = c :: s :=
  List.dropWhile_cons_of_neg (by simp [h])

theorem OpensName.isBlankChar {c : Char} (h : OpensName c) : isBlankChar c = false := by
  rcases h with h | rfl | rfl
  · by_contra hblank
    rw [isNameChar_of_isBlankChar (by simpa using hblank)] at h
    cases h
  · rfl
  · rfl

theorem SpellsName.skipBlanks_eq {n : String} {t rest : List Char} (h : SpellsName n t rest) :
    skipBlanks t = t := by
  obtain ⟨c, u, rfl, hc⟩ := h.exists_cons
  exact skipBlanks_cons hc.isBlankChar u

/-- A name between blanks is read up to the mark behind it. -/
theorem simpleName_between {n : String} {s t u rest : List Char} {mark : Char}
    (hbefore : Blanks s t) (h : SpellsName n t u) (hafter : Blanks u (mark :: rest))
    (hname : isNameChar mark = false) (hblank : isBlankChar mark = false) :
    simpleName (skipBlanks s) = some (n, u) ∧ skipBlanks u = mark :: rest := by
  constructor
  · rw [hbefore.skipBlanks_eq, h.skipBlanks_eq]
    refine simpleName_of_spells h fun c hc => ?_
    rcases hafter.mem_head? hc with hc | hc
    · exact isNameChar_of_isBlankChar hc
    · rw [List.head?_cons, Option.mem_some_iff] at hc
      exact hc ▸ hname
  · rw [hafter.skipBlanks_eq, skipBlanks_cons hblank]

/-- Names with dots between them. -/
inductive SpellsPath : List String → List Char → List Char → Prop
  | one {n : String} {s t rest : List Char} (hblanks : Blanks s t) (hname : SpellsName n t rest) :
    SpellsPath [n] s rest
  | more {n : String} {p : List String} {s t u v rest : List Char} (hblanks : Blanks s t)
    (hname : SpellsName n t u) (hdot : Blanks u ('.' :: v)) (h : SpellsPath p v rest) :
    SpellsPath (n :: p) s rest

theorem SpellsPath.isSuffix {p : List String} {s rest : List Char} (h : SpellsPath p s rest) :
    rest <:+ s := by
  induction h with
  | one hblanks hname => exact hname.isSuffix.trans hblanks.isSuffix
  | more hblanks hname hdot _ ih =>
    exact ih.trans <| (List.suffix_cons _ _).trans <| hdot.isSuffix.trans <|
      hname.isSuffix.trans hblanks.isSuffix

theorem SpellsPath.exists_cons {p : List String} {s rest : List Char} (h : SpellsPath p s rest) :
    ∃ c t, skipBlanks s = c :: t ∧ OpensName c := by
  cases h with
  | one hblanks hname =>
    obtain ⟨c, t, rfl, hc⟩ := hname.exists_cons
    exact ⟨c, t, by rw [hblanks.skipBlanks_eq, skipBlanks_cons hc.isBlankChar], hc⟩
  | more hblanks hname =>
    obtain ⟨c, t, rfl, hc⟩ := hname.exists_cons
    exact ⟨c, t, by rw [hblanks.skipBlanks_eq, skipBlanks_cons hc.isBlankChar], hc⟩

theorem SpellsPath.ne_nil {p : List String} {s rest : List Char} (h : SpellsPath p s rest) :
    p ≠ [] := by
  cases h <;> simp

theorem dottedName_skipBlanks (more : ℕ) (s : List Char) :
    dottedName more (skipBlanks s) = dottedName more s := by
  cases more with
  | zero => rfl
  | succ more => rw [dottedName, skipBlanks_skipBlanks, dottedName]

/-- Names are read up to the mark behind them, if there are not too many. -/
theorem dottedName_of_spells {p : List String} {s t rest : List Char} {mark : Char} {more : ℕ}
    (h : SpellsPath p s t) (hmark : mark = '=' ∨ mark = ']') (hblanks : Blanks t (mark :: rest)) :
    dottedName more s = if p.length ≤ more then some (p, mark :: rest) else none := by
  have hdot : mark ≠ '.' := by rcases hmark with rfl | rfl <;> decide
  have hname : isNameChar mark = false := by rcases hmark with rfl | rfl <;> rfl
  have hblank : isBlankChar mark = false := by rcases hmark with rfl | rfl <;> rfl
  induction h generalizing more with
  | one hb hn =>
    obtain ⟨hread, hskip⟩ := simpleName_between hb hn hblanks hname hblank
    cases more with
    | zero => rfl
    | succ more => simp [dottedName, hread, hskip, hdot]
  | more hb hn hd _ ih =>
    obtain ⟨hread, hskip⟩ := simpleName_between hb hn hd rfl rfl
    cases more with
    | zero => rfl
    | succ more =>
      simp only [dottedName, hread, hskip, ih hblanks, Option.bind_eq_bind, Option.bind_some,
        List.length_cons, Nat.add_le_add_iff_right]
      split <;> rfl

end ReleaseGate.Toml
