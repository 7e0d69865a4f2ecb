import ReleaseGate.Proofs.Toml.Spelled
import ReleaseGate.Toml.Reader

/-!
# Written lines

Lines that open a table or set a text or a list of texts, with blanks, comments and line breaks
wherever they may stand. They are read as what they say, up to wherever they end.
-/
namespace ReleaseGate.Toml

open ReleaseGate.Text

/-- The end of a line, or of the text. -/
inductive Break : List Char → List Char → Prop
  | newline {rest : List Char} : Break ('\n' :: rest) rest
  | crlf {rest : List Char} : Break ('\r' :: '\n' :: rest) rest
  | done : Break [] []

/-- The rest of a line that says nothing. -/
inductive LineEnd : List Char → List Char → Prop
  | bare {s t rest : List Char} (hblanks : Blanks s t) (hbreak : Break t rest) : LineEnd s rest
  | comment {s text t rest : List Char} (hblanks : Blanks s ('#' :: (text ++ t)))
    (hplain : ∀ c ∈ text, isPlain c) (hbreak : Break t rest) : LineEnd s rest

theorem Break.isSuffix {s rest : List Char} (h : Break s rest) : rest <:+ s := by
  cases h with
  | newline => exact List.suffix_cons _ _
  | crlf => exact List.suffix_append ['\r', '\n'] _
  | done => exact List.suffix_rfl

theorem Break.skipBlanks_eq {s rest : List Char} (h : Break s rest) : skipBlanks s = s := by
  cases h <;> rfl

theorem Break.dropWhile_append {text s rest : List Char} (h : Break s rest)
    (hplain : ∀ c ∈ text, isPlain c) : (text ++ s).dropWhile isPlain = s := by
  rw [List.dropWhile_append_of_pos hplain]
  cases h <;> rfl

theorem endLine_of_lineEnd {s rest : List Char} (h : LineEnd s rest) :
    endLine s = some rest := by
  cases h with
  | bare hblanks hbreak =>
    rw [endLine, hblanks.skipBlanks_eq, hbreak.skipBlanks_eq]
    cases hbreak <;> rfl
  | comment hblanks hplain hbreak =>
    rw [endLine, hblanks.skipBlanks_eq, skipBlanks_cons rfl]
    simp only [hbreak.dropWhile_append hplain]
    cases hbreak <;> rfl

theorem endLine_skipBlanks (s : List Char) : endLine (skipBlanks s) = endLine s := by
  rw [endLine, skipBlanks_skipBlanks, endLine]

theorem LineEnd.isSuffix {s rest : List Char} (h : LineEnd s rest) : rest <:+ s := by
  cases h with
  | bare hblanks hbreak => exact hbreak.isSuffix.trans hblanks.isSuffix
  | comment hblanks _ hbreak =>
    exact hbreak.isSuffix.trans <| (List.suffix_append ('#' :: _) _).trans hblanks.isSuffix

theorem LineEnd.length_lt {s rest : List Char} (h : LineEnd s rest) (hne : s ≠ []) :
    rest.length < s.length := by
  cases h with
  | bare hblanks hbreak =>
    have hle := hblanks.isSuffix.length_le
    cases hbreak with
    | newline => exact hle
    | crlf => exact (Nat.le_succ _).trans hle
    | done => exact List.length_pos_iff.2 hne
  | comment hblanks _ hbreak =>
    have hle := hblanks.isSuffix.length_le
    have hbreak := hbreak.isSuffix.length_le
    rw [List.length_cons, List.length_append] at hle
    omega

theorem Break.unquoted {s rest : List Char} (h : Break s rest) : Unquoted s := by
  intro c hc
  cases h with
  | newline => cases hc; decide
  | crlf => cases hc; decide
  | done => cases hc

theorem LineEnd.unquoted {s rest : List Char} (h : LineEnd s rest) : Unquoted s := by
  cases h with
  | bare hblanks hbreak => exact hblanks.unquoted hbreak.unquoted
  | comment hblanks =>
    apply hblanks.unquoted
    intro c hc
    cases hc
    decide

/-- Lines that say nothing, and blanks. -/
inductive Gap : List Char → List Char → Prop
  | blanks {s rest : List Char} (h : Blanks s rest) : Gap s rest
  | line {s t rest : List Char} (hline : LineEnd s t) (h : Gap t rest) : Gap s rest

theorem Blanks.skipGap_eq {s rest : List Char} (h : Blanks s rest) :
    skipGap false s = skipGap false rest := by
  induction h with
  | none => rfl
  | blank hc _ ih =>
    rw [← ih]
    simp only [isBlankChar, Bool.or_eq_true, beq_iff_eq] at hc
    rcases hc with rfl | rfl <;> rfl

theorem Break.skipGap_eq {s rest : List Char} (h : Break s rest) (inComment : Bool) :
    skipGap inComment s = skipGap false rest := by
  cases h <;> simp [skipGap]

theorem skipGap_comment {text : List Char} (hplain : ∀ c ∈ text, isPlain c) (s : List Char) :
    skipGap true (text ++ s) = skipGap true s := by
  induction text with
  | nil => rfl
  | cons c text ih =>
    rw [List.forall_mem_cons] at hplain
    rw [List.cons_append, skipGap, if_pos hplain.1, ih hplain.2]
    · rintro _ rfl
      exact absurd hplain.1 (by decide)
    · rintro rfl
      exact absurd hplain.1 (by decide)

theorem LineEnd.skipGap_eq {s rest : List Char} (h : LineEnd s rest) :
    skipGap false s = skipGap false rest := by
  cases h with
  | bare hblanks hbreak => rw [hblanks.skipGap_eq, hbreak.skipGap_eq]
  | comment hblanks hplain hbreak =>
    rw [hblanks.skipGap_eq, ← hbreak.skipGap_eq true, ← skipGap_comment hplain]
    rfl

theorem Gap.skipGap_eq {s rest : List Char} (h : Gap s rest) :
    skipGap false s = skipGap false rest := by
  induction h with
  | blanks h => exact h.skipGap_eq
  | line hline _ ih => rw [hline.skipGap_eq, ih]

theorem Gap.unquoted {s rest : List Char} (h : Gap s rest) (hrest : Unquoted rest) :
    Unquoted s := by
  cases h with
  | blanks h => exact h.unquoted hrest
  | line hline => exact hline.unquoted

theorem Gap.isSuffix {s rest : List Char} (h : Gap s rest) : rest <:+ s := by
  induction h with
  | blanks h => exact h.isSuffix
  | line hline _ ih => exact ih.trans hline.isSuffix

/-- The texts of a list whose bracket is open. A comma may follow the last one. -/
inductive SpellsItems : List String → List Char → List Char → Prop
  | close {s rest : List Char} (hgap : Gap s (']' :: rest)) : SpellsItems [] s rest
  | last {x : String} {s t u rest : List Char} (hgap : Gap s t) (htext : SpellsText x t u)
    (hclose : Gap u (']' :: rest)) : SpellsItems [x] s rest
  | more {x : String} {xs : List String} {s t u v rest : List Char} (hgap : Gap s t)
    (htext : SpellsText x t u) (hcomma : Gap u (',' :: v)) (h : SpellsItems xs v rest) :
    SpellsItems (x :: xs) s rest

inductive SpellsValue : Value → List Char → List Char → Prop
  | text {x : String} {s rest : List Char} (h : SpellsText x s rest) : SpellsValue (.text x) s rest
  | list {xs : List String} {s rest : List Char} (h : SpellsItems xs s rest) :
    SpellsValue (.list false (xs.map .text)) ('[' :: s) rest

theorem value_of_spellsText {x : String} {s rest : List Char} (h : SpellsText x s rest)
    (hrest : Unquoted rest) (room : ℕ) :
    value room s = some (.text x, rest) := by
  have hsimple : simpleValue s = some (.text x, rest) := by
    simp [simpleValue, quotedText_of_spells h hrest]
  cases room with
  | zero => exact hsimple
  | succ room => cases h <;> exact hsimple

theorem skipGap_text {x : String} {s t rest : List Char} (hgap : Gap s t)
    (h : SpellsText x t rest) : skipGap false s = some t := by
  rw [hgap.skipGap_eq]
  cases h <;> rfl

theorem skipGap_mark {mark : Char} {s rest : List Char} (h : Gap s (mark :: rest))
    (hmark : mark = ',' ∨ mark = ']') :
    skipGap false s = some (mark :: rest) ∧ Unquoted s := by
  constructor
  · rw [h.skipGap_eq]
    rcases hmark with rfl | rfl <;> rfl
  · apply h.unquoted
    intro c hc
    cases hc
    rcases hmark with rfl | rfl <;> decide

theorem SpellsItems.isSuffix {xs : List String} {s rest : List Char} (h : SpellsItems xs s rest) :
    ']' :: rest <:+ s := by
  induction h with
  | close hgap => exact hgap.isSuffix
  | last hgap htext hclose => exact hclose.isSuffix.trans (htext.isSuffix.trans hgap.isSuffix)
  | more hgap htext hcomma _ ih =>
    exact ih.trans <| (List.suffix_cons _ _).trans <|
      hcomma.isSuffix.trans (htext.isSuffix.trans hgap.isSuffix)

theorem exists_spellsItems (xs : List String) (rest : List Char) :
    ∃ s, SpellsItems xs s rest := by
  induction xs with
  | nil => exact ⟨_, .close (.blanks .none)⟩
  | cons x xs ih =>
    obtain ⟨t, ht⟩ := ih
    obtain ⟨s, hs⟩ := exists_spellsText x (',' :: t)
    exact ⟨s, .more (.blanks .none) hs (.blanks .none) ht⟩

theorem SpellsItems.exists_eq_succ {xs : List String} {s rest : List Char} {steps : ℕ}
    (h : SpellsItems xs s rest) (hsteps : s.length ≤ steps) : ∃ more, steps = more + 1 :=
  Nat.exists_eq_add_one.2 <|
    Nat.lt_of_lt_of_le (Nat.succ_pos _) (h.isSuffix.length_le.trans hsteps)

theorem items_of_spells {xs : List String} {s rest : List Char} {room steps : ℕ}
    (h : SpellsItems xs s rest) (hsteps : s.length ≤ steps) :
    items (value room) steps s = some (xs.map .text, rest) := by
  induction h generalizing steps with
  | close hgap =>
    obtain ⟨steps, rfl⟩ := (SpellsItems.close hgap).exists_eq_succ hsteps
    simp [items, (skipGap_mark hgap (.inr rfl)).1]
  | last hgap htext hclose =>
    obtain ⟨steps, rfl⟩ := (SpellsItems.last hgap htext hclose).exists_eq_succ hsteps
    obtain ⟨hmark, hunquoted⟩ := skipGap_mark hclose (.inr rfl)
    have hvalue := value_of_spellsText htext hunquoted room
    have hbracket := htext.ne_bracket
    simp [items, skipGap_text hgap htext, hvalue, hmark]
  | more hgap htext hcomma h ih =>
    obtain ⟨steps, rfl⟩ := (SpellsItems.more hgap htext hcomma h).exists_eq_succ hsteps
    obtain ⟨hmark, hunquoted⟩ := skipGap_mark hcomma (.inl rfl)
    have hvalue := value_of_spellsText htext hunquoted room
    have hbracket := htext.ne_bracket
    have hshorter := hcomma.isSuffix.length_le.trans
      (htext.isSuffix.length_le.trans (hgap.isSuffix.length_le.trans hsteps))
    simp [items, skipGap_text hgap htext, hvalue, hmark, ih (Nat.le_of_succ_le_succ hshorter)]

theorem SpellsValue.isSuffix {x : Value} {s rest : List Char} (h : SpellsValue x s rest) :
    rest <:+ s := by
  cases h with
  | text h => exact h.isSuffix
  | list h => exact (List.suffix_cons _ _).trans (h.isSuffix.trans (List.suffix_cons _ _))

theorem SpellsValue.skipBlanks_eq {x : Value} {s rest : List Char} (h : SpellsValue x s rest) :
    skipBlanks s = s := by
  cases h with
  | text h => cases h <;> rfl
  | list => rfl

theorem value_of_spells {x : Value} {s rest : List Char} {room : ℕ} (h : SpellsValue x s rest)
    (hrest : Unquoted rest) (hroom : 0 < room) : value room s = some (x, rest) := by
  obtain ⟨room, rfl⟩ := Nat.exists_eq_add_one.2 hroom
  cases h with
  | text h => exact value_of_spellsText h hrest (room + 1)
  | list h => simp [value, items_of_spells h le_rfl]

theorem line_of_ne_bracket {s : List Char} (h : ∀ t, skipBlanks s ≠ '[' :: t) :
    line s = match endLine s with
      | some rest => some (none, rest)
      | none => (pair (value depthLimit) (skipBlanks s)).bind fun found =>
          (endLine found.2).map fun rest => (some (.assign found.1.1 found.1.2), rest) := by
  rw [line, ← endLine_skipBlanks]
  split
  case h_1 hs => exact absurd hs (h _)
  case h_2 hs => exact absurd hs (h _)
  case h_3 =>
    cases endLine (skipBlanks s) with
    | some rest => rfl
    | none =>
      cases pair (value depthLimit) (skipBlanks s) with
      | none => rfl
      | some found => cases hend : endLine found.2 <;> simp [hend]

theorem line_of_lineEnd {s rest : List Char} (h : LineEnd s rest) : line s = some (none, rest) := by
  have hend := endLine_of_lineEnd h
  rw [line_of_ne_bracket, hend]
  intro t ht
  rw [← endLine_skipBlanks, ht] at hend
  cases hend

section Names

variable {p : List String} {s t u v : List Char}

/-- Names in brackets open a table, if the line ends there. -/
theorem line_table (hopen : Blanks s ('[' :: t)) (hname : SpellsPath p t u)
    (hclose : Blanks u (']' :: v)) :
    line s = if p.length ≤ depthLimit then
      (endLine v).bind fun rest => (header p .openTable).map fun said => (some said, rest)
      else none := by
  have hbracket : ∀ r, t ≠ '[' :: r := by
    rintro r rfl
    obtain ⟨c, t, hskip, hc⟩ := hname.exists_cons
    cases hskip
    exact hc.ne (by decide) rfl
  have hskip : skipBlanks s = '[' :: t := by rw [hopen.skipBlanks_eq, skipBlanks_cons rfl]
  by_cases hlength : p.length ≤ depthLimit
  · simp [line, hskip, name, dottedName_of_spells hname (.inr rfl) hclose, hlength, after?,
      Option.map_eq_bind]
  · simp [line, hskip, name, dottedName_of_spells hname (.inr rfl) hclose, hlength]

theorem line_row (hopen : Blanks s ('[' :: '[' :: t)) (hname : SpellsPath p t u)
    (hclose : Blanks u (']' :: v)) :
    line s = if p.length ≤ depthLimit then
      (after? [']'] v).bind fun v => (endLine v).bind fun rest =>
        (header p .openRow).map fun said => (some said, rest)
      else none := by
  have hskip : skipBlanks s = '[' :: '[' :: t := by rw [hopen.skipBlanks_eq, skipBlanks_cons rfl]
  by_cases hlength : p.length ≤ depthLimit
  · simp [line, hskip, name, dottedName_of_spells hname (.inr rfl) hclose, hlength, after?,
      Option.map_eq_bind]
  · simp [line, hskip, name, dottedName_of_spells hname (.inr rfl) hclose, hlength]

theorem line_setting (hname : SpellsPath p s t) (hequals : Blanks t ('=' :: u)) :
    line s = if p.length ≤ depthLimit then
      (value depthLimit (skipBlanks u)).bind fun found =>
        (endLine found.2).map fun rest => (some (.assign p found.1), rest)
      else none := by
  obtain ⟨c, r, hskip, hc⟩ := hname.exists_cons
  have hend : endLine s = none := by
    rw [← endLine_skipBlanks, hskip, endLine, skipBlanks_cons hc.isBlankChar]
    split
    case h_1 he => cases he
    case h_2 he => exact absurd (List.cons.inj he).1 (hc.ne (by decide))
    case h_3 he => exact absurd (List.cons.inj he).1 (hc.ne (by decide))
    case h_4 he => exact absurd (List.cons.inj he).1 (hc.ne (by decide))
    case h_5 => rfl
  have hbracket : ∀ t, skipBlanks s ≠ '[' :: t := by
    intro t ht
    exact hc.ne (by decide) (List.cons.inj (hskip.symm.trans ht)).1
  rw [line_of_ne_bracket hbracket, hend]
  simp only [pair, name, dottedName_skipBlanks, dottedName_of_spells hname (.inl rfl) hequals]
  split
  case isTrue => simp [after?, Option.bind_assoc]
  case isFalse => rfl

end Names

/-- What a line says. -/
inductive SpellsLine : Option Statement → List Char → List Char → Prop
  | blank {s rest : List Char} (h : LineEnd s rest) : SpellsLine none s rest
  | table {n : String} {s t u v rest : List Char} (hopen : Blanks s ('[' :: t))
    (hname : SpellsPath [n] t u) (hclose : Blanks u (']' :: v)) (hend : LineEnd v rest) :
    SpellsLine (some (.openTable [] n)) s rest
  | setting {n : String} {x : Value} {s t u v w rest : List Char} (hname : SpellsPath [n] s t)
    (hequals : Blanks t ('=' :: u)) (hblanks : Blanks u v) (hvalue : SpellsValue x v w)
    (hend : LineEnd w rest) : SpellsLine (some (.assign [n] x)) s rest

theorem line_of_spells {said : Option Statement} {s rest : List Char}
    (h : SpellsLine said s rest) : line s = some (said, rest) := by
  cases h with
  | blank h => exact line_of_lineEnd h
  | table hopen hname hclose hend =>
    rw [line_table hopen hname hclose, endLine_of_lineEnd hend]
    rfl
  | setting hname hequals hblanks hvalue hend =>
    rw [line_setting hname hequals, hblanks.skipBlanks_eq, hvalue.skipBlanks_eq,
      value_of_spells hvalue hend.unquoted (by decide)]
    simp [endLine_of_lineEnd hend, depthLimit]

theorem SpellsLine.ne_nil {said : Statement} {s rest : List Char}
    (h : SpellsLine (some said) s rest) : s ≠ [] := by
  rintro rfl
  cases h with
  | table hopen => cases hopen
  | setting hname =>
    obtain ⟨c, t, hskip, -⟩ := hname.exists_cons
    cases hskip

theorem SpellsLine.length_lt {said : Option Statement} {s rest : List Char}
    (h : SpellsLine said s rest) (hne : s ≠ []) : rest.length < s.length := by
  cases h with
  | blank h => exact h.length_lt hne
  | table hopen hname hclose hend =>
    have hrest := (hend.isSuffix.trans (List.suffix_cons _ _)).trans
      (hclose.isSuffix.trans hname.isSuffix)
    exact Nat.lt_of_lt_of_le (Nat.lt_succ_of_le hrest.length_le) hopen.isSuffix.length_le
  | setting hname hequals hblanks hvalue hend =>
    have hrest := hend.isSuffix.trans (hvalue.isSuffix.trans hblanks.isSuffix)
    exact Nat.lt_of_lt_of_le (Nat.lt_succ_of_le hrest.length_le)
      (hequals.isSuffix.trans hname.isSuffix).length_le

/-- What lines say, one after the other. -/
inductive SpellsLines : List Statement → List Char → List Char → Prop
  | none {rest : List Char} : SpellsLines [] rest rest
  | line {said : Option Statement} {more : List Statement} {s t rest : List Char} (hne : s ≠ [])
    (hline : SpellsLine said s t) (h : SpellsLines more t rest) :
    SpellsLines (said.toList ++ more) s rest

theorem SpellsLines.cons {said : Statement} {more : List Statement} {s t rest : List Char}
    (hline : SpellsLine (some said) s t) (h : SpellsLines more t rest) :
    SpellsLines (said :: more) s rest :=
  .line hline.ne_nil hline h

theorem lines_of_spells {said : List Statement} {s rest : List Char} {steps : ℕ}
    (h : SpellsLines said s rest) (hsteps : s.length ≤ steps) :
    ∃ more, rest.length ≤ more ∧ lines steps s = (lines more rest).map (said ++ ·) := by
  induction h generalizing steps with
  | none => exact ⟨steps, hsteps, by simp⟩
  | @line said more s t rest hne hline _ ih =>
    obtain ⟨steps, rfl⟩ := Nat.exists_eq_add_one.2
      (Nat.lt_of_lt_of_le (List.length_pos_iff.2 hne) hsteps)
    -- the line takes a character, so the steps that are left suffice for the rest
    obtain ⟨left, hleft, hrest⟩ := ih (Nat.le_of_lt_succ
      (Nat.lt_of_lt_of_le (hline.length_lt hne) hsteps))
    obtain ⟨c, s, rfl⟩ := List.exists_cons_of_ne_nil hne
    refine ⟨left, hleft, ?_⟩
    simp only [lines, line_of_spells hline, hrest, Option.bind_eq_bind, Option.bind_some]
    cases lines left rest <;> simp

theorem exists_spellsLines {said : List Statement} {rest : List Char}
    (h : ∀ st ∈ said, ∀ rest, ∃ s, SpellsLine (some st) s rest) :
    ∃ s, SpellsLines said s rest := by
  induction said with
  | nil => exact ⟨rest, .none⟩
  | cons st said ih =>
    rw [List.forall_mem_cons] at h
    obtain ⟨t, ht⟩ := ih h.2
    obtain ⟨s, hs⟩ := h.1 t
    exact ⟨s, .cons hs ht⟩

theorem exists_spellsLine_table (n : String) (rest : List Char) :
    ∃ s, SpellsLine (some (.openTable [] n)) s rest := by
  obtain ⟨t, ht⟩ := exists_spellsName n (']' :: '\n' :: rest)
  exact ⟨_, .table .none (.one .none ht) .none (.bare .none .newline)⟩

theorem exists_spellsLine_setting (n : String) {x : Value}
    (hvalue : ∀ rest, ∃ s, SpellsValue x s rest) (rest : List Char) :
    ∃ s, SpellsLine (some (.assign [n] x)) s rest := by
  obtain ⟨u, hu⟩ := hvalue ('\n' :: rest)
  obtain ⟨t, ht⟩ := exists_spellsName n ('=' :: u)
  exact ⟨t, .setting (.one .none ht) .none .none hu (.bare .none .newline)⟩

theorem read_of_ne_mark {s : List Char} (h : ∀ t, s ≠ '\uFEFF' :: t) :
    read s = (lines s.length s).bind Table.ofStatements := by
  simp [read]

theorem line_mark (s : List Char) : line ('\uFEFF' :: s) = none := by
  rw [line_of_ne_bracket (by rintro t ht; cases ht)]
  rfl

theorem SpellsLines.ne_mark {said : List Statement} {s rest : List Char}
    (h : SpellsLines said s rest) (hrest : ∀ t, rest ≠ '\uFEFF' :: t) (t : List Char) :
    s ≠ '\uFEFF' :: t := by
  rintro rfl
  cases h with
  | none => exact hrest t rfl
  | line _ hline =>
    have hread := line_of_spells hline
    rw [line_mark] at hread
    cases hread

/-- A document of lines is the table that they describe. -/
theorem read_of_spells {said : List Statement} {s : List Char} (h : SpellsLines said s []) :
    read s = Table.ofStatements said := by
  obtain ⟨more, -, hlines⟩ := lines_of_spells h le_rfl
  rw [read_of_ne_mark (h.ne_mark (by simp)), hlines]
  cases more <;> simp [lines]

/-- Where a statement puts something, from the top. -/
def Statement.place (current : List String) : Statement → List String
  | .openTable path name => path ++ [name]
  | .openRow path name => path ++ [name]
  | .assign path _ => current ++ path

/-- A line of the current table that names a path. Behind the names there may be anything. -/
inductive Adds (current : List String) : List String → List Char → Prop
  | setting {p : List String} {s t u : List Char} (hname : SpellsPath p s t)
    (hequals : Blanks t ('=' :: u)) : Adds current (current ++ p) s
  | table {p : List String} {s t u v : List Char} (hopen : Blanks s ('[' :: t))
    (hname : SpellsPath p t u) (hclose : Blanks u (']' :: v)) : Adds current p s
  | row {p : List String} {s t u v : List Char} (hopen : Blanks s ('[' :: '[' :: t))
    (hname : SpellsPath p t u) (hclose : Blanks u (']' :: v)) : Adds current p s

theorem header_eq_some {p : List String} (hne : p ≠ [])
    (statement : List String → String → Statement) :
    ∃ path n, path ++ [n] = p ∧ header p statement = some (statement path n) :=
  ⟨p.dropLast, p.getLast hne, List.dropLast_append_getLast hne,
    by rw [header, List.getLast?_eq_some_getLast hne, Option.map_some]⟩

theorem line_of_adds {current path : List String} {s : List Char} (h : Adds current path s) :
    line s = none ∨ ∃ said rest, line s = some (some said, rest) ∧ said.place current = path := by
  cases h with
  | setting hname hequals =>
    rw [line_setting hname hequals]
    split
    case isTrue =>
      cases value depthLimit (skipBlanks _) with
      | none => exact .inl rfl
      | some found =>
        rw [Option.bind_some]
        cases endLine found.2 with
        | none => exact .inl rfl
        | some rest => exact .inr ⟨_, rest, rfl, rfl⟩
    case isFalse => exact .inl rfl
  | table hopen hname hclose =>
    obtain ⟨path, n, rfl, hheader⟩ := header_eq_some hname.ne_nil .openTable
    rw [line_table hopen hname hclose, hheader]
    split
    case isTrue =>
      cases endLine _ with
      | none => exact .inl rfl
      | some rest => exact .inr ⟨_, rest, rfl, rfl⟩
    case isFalse => exact .inl rfl
  | row hopen hname hclose =>
    obtain ⟨path, n, rfl, hheader⟩ := header_eq_some hname.ne_nil .openRow
    rw [line_row hopen hname hclose, hheader]
    split
    case isTrue =>
      cases after? [']'] _ with
      | none => exact .inl rfl
      | some v =>
        rw [Option.bind_some]
        cases endLine v with
        | none => exact .inl rfl
        | some rest => exact .inr ⟨_, rest, rfl, rfl⟩
    case isFalse => exact .inl rfl

theorem Adds.ne_nil {current path : List String} {s : List Char} (h : Adds current path s) :
    s ≠ [] := by
  rintro rfl
  cases h with
  | setting hname =>
    obtain ⟨c, t, hskip, -⟩ := hname.exists_cons
    cases hskip
  | table hopen => cases hopen
  | row hopen => cases hopen

theorem Adds.ne_mark {current path : List String} {s : List Char} (h : Adds current path s)
    (t : List Char) : s ≠ '\uFEFF' :: t := by
  rintro rfl
  cases h with
  | setting hname =>
    obtain ⟨c, t, hskip, hc⟩ := hname.exists_cons
    cases hskip
    exact hc.ne (by decide) rfl
  | table hopen => cases hopen with | blank hc => cases hc
  | row hopen => cases hopen with | blank hc => cases hc

/-- What goes on with a line that names a path is no document, or one that puts something there. -/
theorem read_of_adds {current path : List String} {said : List Statement} {s rest : List Char}
    (h : SpellsLines said s rest) (hadds : Adds current path rest) :
    read s = none ∨ ∃ st more, st.place current = path ∧
      read s = Table.ofStatements (said ++ st :: more) := by
  obtain ⟨left, hleft, hlines⟩ := lines_of_spells h le_rfl
  rw [read_of_ne_mark (h.ne_mark hadds.ne_mark), hlines]
  obtain ⟨left, rfl⟩ := Nat.exists_eq_add_one.2
    (Nat.lt_of_lt_of_le (List.length_pos_iff.2 hadds.ne_nil) hleft)
  obtain ⟨c, rest, rfl⟩ := List.exists_cons_of_ne_nil hadds.ne_nil
  rcases line_of_adds hadds with hline | ⟨st, tail, hline, hplace⟩
  · simp [lines, hline]
  · simp only [lines, hline, Option.bind_eq_bind, Option.bind_some]
    cases lines left tail with
    | none => exact .inl rfl
    | some more => exact .inr ⟨st, more, hplace, rfl⟩

end ReleaseGate.Toml
