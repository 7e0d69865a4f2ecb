import Mathlib.Data.List.TakeWhile
import ReleaseGate.Proofs.Text.Field
import ReleaseGate.Providers

/-!
# Provider records as they are written

Records with any white space between their fields and any text without a colon between the records.
Each of the three forms finds its own field of every record and nothing else; a list of aliases that
does not stand on one line is not found.
-/
namespace ReleaseGate.Providers

open Text

/-- Ends neither a quoted item, nor a list of items, nor a line, nor the name of a field. -/
def isPlain (c : Char) : Bool :=
  c != '"' && c != ']' && c != '\n' && c != ':'

/-- An id or an alias. The letters of all scripts, the digits, `_`, `-` and `.` are plain. -/
abbrev Name := { s : List Char // s ≠ [] ∧ s.all isPlain = true }

abbrev Family := { s : List Char // s ≠ [] ∧ s.all isFamilyChar = true }

abbrev Space := { s : List Char // isBlank s = true }

/-- Text in which no name of a field ends. -/
abbrev Filler := { s : List Char // ':' ∉ s }

structure Record where
  id : Name
  aliases : List Name
  family : Family

/-- How a list stands in the text: all of it on one line, or each item on a line of its own, with a
comma behind the last one or without. -/
inductive ListLayout where
  | line
  | spread (indent closing : Space) (trailing : Bool)

def quote (name : Name) : List Char :=
  '"' :: (name.1 ++ ['"'])

/-- Quoted items, with a comma and the gap between them. -/
def items (gap : List Char) (names : List Name) : List Char :=
  (',' :: gap).intercalate (names.map quote)

def ListLayout.text (names : List Name) : ListLayout → List Char
  | .line => items [' '] names
  | .spread indent closing trailing =>
    '\n' :: (indent.1 ++ (items ('\n' :: indent.1) names ++
      ((if trailing && !names.isEmpty then [','] else []) ++ '\n' :: closing.1)))

/-- A record as it is written, with what stands behind it. -/
structure Entry where
  record : Record
  layout : ListLayout
  beforeId : Space
  beforeAliases : Space
  beforeList : Space
  beforeOnboarding : Space
  beforeFamily : Space
  behind : Filler

namespace Entry

variable (e : Entry)

def idText : List Char :=
  e.beforeId.1 ++ (quote e.record.id ++ ',' :: e.beforeAliases.1)

def listText : List Char :=
  e.beforeList.1 ++ ("&[".toList ++ (e.layout.text e.record.aliases ++
    ("],".toList ++ e.beforeOnboarding.1)))

def familyText : List Char :=
  e.record.family.1 ++ ',' :: e.behind.1

def text : List Char :=
  "canonical_id:".toList ++ (e.idText ++ ("aliases:".toList ++ (e.listText ++
    ("onboarding:".toList ++ (e.beforeFamily.1 ++
      ("ProviderOnboardingMode::".toList ++ e.familyText))))))

/-- The aliases that are found in the list. -/
def listed : List Name :=
  match e.layout with
  | .line => e.record.aliases
  | .spread _ _ _ => []

end Entry

/-- Records one after another. -/
def textOf (before : Filler) (entries : List Entry) : List Char :=
  before.1 ++ entries.flatMap Entry.text

section Characters

/-! Which characters the parts of a record do not hold. -/

theorem Space.not_mem {c : Char} (hc : isSpace c = false) (s : Space) : c ∉ s.1 := by
  intro hmem
  have hspace : isSpace c = true := List.all_eq_true.1 s.2 c hmem
  simp [hc] at hspace

theorem Name.not_mem {c : Char} (hc : isPlain c = false) (name : Name) : c ∉ name.1 := by
  intro hmem
  have hplain := List.all_eq_true.1 name.2.2 c hmem
  simp [hc] at hplain

theorem Family.not_mem {c : Char} (hc : isFamilyChar c = false) (family : Family) :
    c ∉ family.1 := by
  intro hmem
  have hfamily := List.all_eq_true.1 family.2.2 c hmem
  simp [hc] at hfamily

theorem not_mem_quote {c : Char} (hc : isPlain c = false) (hne : c ≠ '"') (name : Name) :
    c ∉ quote name := by
  apply List.not_mem_cons_of_ne_of_not_mem hne
  exact List.not_mem_append (name.not_mem hc)
    (List.not_mem_cons_of_ne_of_not_mem hne List.not_mem_nil)

theorem items_cons (gap : List Char) (name : Name) (names : List Name) :
    items gap (name :: names) =
      quote name ++ (if names = [] then [] else ',' :: (gap ++ items gap names)) := by
  cases names with
  | nil => simp [items]
  | cons other names => simp [items, List.intercalate_cons_cons]

theorem not_mem_items {c : Char} (hc : isPlain c = false) (hquote : c ≠ '"') (hcomma : c ≠ ',')
    {gap : List Char} (hgap : c ∉ gap) (names : List Name) : c ∉ items gap names := by
  induction names with
  | nil => simp [items]
  | cons name names ih =>
    rw [items_cons]
    apply List.not_mem_append (not_mem_quote hc hquote name)
    split
    · exact List.not_mem_nil
    · exact List.not_mem_cons_of_ne_of_not_mem hcomma (List.not_mem_append hgap ih)

theorem colon_not_mem_layout (names : List Name) (layout : ListLayout) :
    ':' ∉ layout.text names := by
  cases layout with
  | line => exact not_mem_items rfl (by decide) (by decide) (by decide) names
  | spread indent closing trailing =>
    have hindent : ':' ∉ indent.1 := indent.not_mem rfl
    have hbreak : ':' ∉ '\n' :: indent.1 :=
      List.not_mem_cons_of_ne_of_not_mem (by decide) hindent
    have hcomma : ':' ∉ if trailing && !names.isEmpty then [','] else [] := by
      split
      · decide
      · exact List.not_mem_nil
    have hclosing : ':' ∉ '\n' :: closing.1 :=
      List.not_mem_cons_of_ne_of_not_mem (by decide) (closing.not_mem rfl)
    exact List.not_mem_cons_of_ne_of_not_mem (by decide) (List.not_mem_append hindent
      (List.not_mem_append (not_mem_items rfl (by decide) (by decide) hbreak names)
        (List.not_mem_append hcomma hclosing)))

variable (e : Entry)

theorem Entry.colon_not_mem_idText : ':' ∉ e.idText := by
  apply List.not_mem_append (e.beforeId.not_mem rfl)
  apply List.not_mem_append (not_mem_quote rfl (by decide) e.record.id)
  exact List.not_mem_cons_of_ne_of_not_mem (by decide) (e.beforeAliases.not_mem rfl)

theorem Entry.colon_not_mem_listText : ':' ∉ e.listText := by
  apply List.not_mem_append (e.beforeList.not_mem rfl)
  apply List.not_mem_append (by decide)
  apply List.not_mem_append (colon_not_mem_layout e.record.aliases e.layout)
  exact List.not_mem_append (by decide) (e.beforeOnboarding.not_mem rfl)

theorem Entry.colon_not_mem_familyText : ':' ∉ e.familyText := by
  apply List.not_mem_append (e.record.family.not_mem rfl)
  exact List.not_mem_cons_of_ne_of_not_mem (by decide) e.behind.2

end Characters

section Forms

/-! What each form matches at the start of its field. -/

theorem dropWhile_space (s : Space) {c : Char} (hc : isSpace c = false) (rest : List Char) :
    (s.1 ++ c :: rest).dropWhile isSpace = c :: rest := by
  rw [List.dropWhile_append_of_pos (List.all_eq_true.1 s.2)]
  exact List.dropWhile_cons_of_neg (by simp [hc])

theorem quotedItem_quote (name : Name) (rest : List Char) :
    quotedItem (quote name ++ rest) = some (name.1, rest) := by
  have hall : ∀ c ∈ name.1, (c != '"') = true := fun c hc => by
    simpa using fun he : c = '"' => name.not_mem (c := '"') rfl (he ▸ hc)
  have hspan : (name.1 ++ '"' :: rest).span (· != '"') = (name.1, '"' :: rest) := by
    rw [List.span_eq_takeWhile_dropWhile, List.takeWhile_append_of_pos hall,
      List.dropWhile_append_of_pos hall, List.takeWhile_cons_of_neg (by simp),
      List.dropWhile_cons_of_neg (by simp), List.append_nil]
  rw [quote, List.cons_append, List.append_assoc, List.singleton_append, quotedItem, hspan]
  simp [name.2.1]

/-- The items of a list are what is quoted in it. -/
theorem allMatches_items {gap : List Char} (hgap : '"' ∉ gap) (names : List Name) :
    allMatches quotedItem (items gap names) = names.map (·.1) := by
  have hskip : ∀ s, allMatches quotedItem (',' :: (gap ++ s)) = allMatches quotedItem s := by
    intro s
    rw [← List.cons_append]
    apply allMatches_append_of_none
    intro t hne ht
    obtain ⟨c, t, rfl⟩ := List.exists_cons_of_ne_nil hne
    have hc : c ≠ '"' := by
      rintro rfl
      exact List.not_mem_cons_of_ne_of_not_mem (by decide) hgap (ht.subset List.mem_cons_self)
    simp [quotedItem, hc]
  induction names with
  | nil => rfl
  | cons name names ih =>
    rw [items_cons, allMatches_of_eq_some (by simp [quote]) (quotedItem_quote name _),
      List.map_cons]
    congr 1
    split
    case isTrue hnil =>
      rw [hnil]
      rfl
    case isFalse => rw [hskip, ih]

theorem listBody_append {body : List Char} (h : ∀ c ∈ body, c ≠ ']' ∧ c ≠ '\n')
    (tail : List Char) : listBody (body ++ ("],".toList ++ tail)) = some (body, tail) := by
  induction body with
  | nil => rfl
  | cons c body ih =>
    have hc := h c List.mem_cons_self
    have hbody := ih fun d hd => h d (List.mem_cons_of_mem c hd)
    rw [List.cons_append, listBody]
    · rw [if_neg hc.2, hbody]
      rfl
    · rintro rest rfl
      exact absurd rfl hc.1

theorem canonicalId_field (gap : Space) (name : Name) (rest : List Char) :
    canonicalId ("canonical_id:".toList ++ (gap.1 ++ (quote name ++ rest))) =
      some (name.1, rest) := by
  have hdrop : (gap.1 ++ (quote name ++ rest)).dropWhile isSpace = quote name ++ rest :=
    dropWhile_space gap rfl _
  rw [canonicalId, after?_append, Option.bind_eq_bind, Option.bind_some, hdrop,
    quotedItem_quote]

theorem aliasList_field (gap : Space) (rest : List Char) :
    aliasList ("aliases:".toList ++ (gap.1 ++ ("&[".toList ++ rest))) = listBody rest := by
  have hdrop : (gap.1 ++ ("&[".toList ++ rest)).dropWhile isSpace = "&[".toList ++ rest :=
    dropWhile_space gap rfl _
  rw [aliasList, after?_append, Option.bind_eq_bind, Option.bind_some, hdrop, after?_append]
  rfl

theorem family_field (gap : Space) (name : Family) (rest : List Char) :
    family ("onboarding:".toList ++ (gap.1 ++ ("ProviderOnboardingMode::".toList ++
      (name.1 ++ ',' :: rest)))) = some (name.1, ',' :: rest) := by
  have hdrop : (gap.1 ++ ("ProviderOnboardingMode::".toList ++ (name.1 ++ ',' :: rest))).dropWhile
      isSpace = "ProviderOnboardingMode::".toList ++ (name.1 ++ ',' :: rest) :=
    dropWhile_space gap rfl _
  have hchars := List.all_eq_true.1 name.2.2
  have htake : (name.1 ++ ',' :: rest).takeWhile isFamilyChar = name.1 := by
    rw [List.takeWhile_append_of_pos hchars, List.takeWhile_cons_of_neg (by decide),
      List.append_nil]
  have hrest : (name.1 ++ ',' :: rest).dropWhile isFamilyChar = ',' :: rest := by
    rw [List.dropWhile_append_of_pos hchars, List.dropWhile_cons_of_neg (by decide)]
  rw [family, after?_append, Option.bind_eq_bind, Option.bind_some, hdrop, after?_append,
    Option.bind_some]
  simp [htake, hrest, name.2.1]

end Forms

section Fields

/-! What each form matches in the text of a record, and what it leaves of it. -/

theorem isField_canonicalId : IsField "canonical_id:".toList := ⟨by decide, by decide, by decide⟩

theorem isField_aliases : IsField "aliases:".toList := ⟨by decide, by decide, by decide⟩

theorem isField_onboarding : IsField "onboarding:".toList := ⟨by decide, by decide, by decide⟩

/-- The first colon of a path ends its first part as it would end the name of a field. -/
theorem isField_mode : IsField "ProviderOnboardingMode:".toList :=
  ⟨by decide, by decide, by decide⟩

theorem ledBy_canonicalId : LedBy canonicalId "canonical_id:".toList :=
  ⟨isField_canonicalId, fun _ => Option.isSome_of_isSome_bind⟩

theorem ledBy_aliasList : LedBy aliasList "aliases:".toList :=
  ⟨isField_aliases, fun _ => Option.isSome_of_isSome_bind⟩

theorem ledBy_family : LedBy family "onboarding:".toList :=
  ⟨isField_onboarding, fun _ => Option.isSome_of_isSome_bind⟩

/-- A form of another field passes the family with the path before it. -/
theorem allMatches_familyField {α : Type} {form : Form α} {word : List Char} (h : LedBy form word)
    (honboarding : ¬ word <:+ "onboarding:".toList ∧ ¬ "onboarding:".toList <:+ word)
    (hmode : ¬ word <:+ "ProviderOnboardingMode:".toList ∧
      ¬ "ProviderOnboardingMode:".toList <:+ word)
    {a : List Char} (ha : ':' ∉ a) (gap : Space) (rest : List Char) :
    allMatches form (a ++ ("onboarding:".toList ++ (gap.1 ++
      ("ProviderOnboardingMode::".toList ++ rest)))) = allMatches form rest := by
  have hcolon : allMatches form (':' :: rest) = allMatches form rest :=
    h.allMatches_colon List.not_mem_nil fun hs => absurd (List.suffix_nil.1 hs) h.name_ne
  have hpath : allMatches form (gap.1 ++ ("ProviderOnboardingMode:".toList ++ ':' :: rest)) =
      allMatches form (':' :: rest) := h.allMatches_other (gap.not_mem rfl) isField_mode hmode
  have hcolons : "ProviderOnboardingMode::".toList = "ProviderOnboardingMode:".toList ++ [':'] := by
    decide
  rw [h.allMatches_other ha isField_onboarding honboarding, hcolons, List.append_assoc,
    List.singleton_append, hpath, hcolon]

variable (e : Entry) {a : List Char} (ha : ':' ∉ a) (rest : List Char)

include ha

theorem Entry.allMatches_canonicalId :
    allMatches canonicalId (a ++ (e.text ++ rest)) =
      e.record.id.1 :: allMatches canonicalId (e.familyText ++ rest) := by
  let behind := "aliases:".toList ++ (e.listText ++ ("onboarding:".toList ++
    (e.beforeFamily.1 ++ ("ProviderOnboardingMode::".toList ++ (e.familyText ++ rest)))))
  have htext : e.text ++ rest = "canonical_id:".toList ++ ((e.beforeId.1 ++ quote e.record.id) ++
      (',' :: e.beforeAliases.1 ++ behind)) := by
    unfold Entry.text Entry.idText
    simp only [behind, List.append_assoc, List.cons_append]
  have hid : canonicalId ("canonical_id:".toList ++ ((e.beforeId.1 ++ quote e.record.id) ++
      (',' :: e.beforeAliases.1 ++ behind))) =
        some (e.record.id.1, ',' :: e.beforeAliases.1 ++ behind) := by
    rw [List.append_assoc e.beforeId.1, canonicalId_field]
  have hcomma : ':' ∉ ',' :: e.beforeAliases.1 :=
    List.not_mem_cons_of_ne_of_not_mem (by decide) (e.beforeAliases.not_mem rfl)
  rw [htext, ledBy_canonicalId.allMatches_found ha hid,
    ledBy_canonicalId.allMatches_other hcomma isField_aliases (by decide),
    allMatches_familyField ledBy_canonicalId (by decide) (by decide) e.colon_not_mem_listText]

theorem Entry.allMatches_family :
    allMatches family (a ++ (e.text ++ rest)) =
      e.record.family.1 :: allMatches family (',' :: e.behind.1 ++ rest) := by
  have htext : e.text ++ rest = "canonical_id:".toList ++ (e.idText ++ ("aliases:".toList ++
      (e.listText ++ ("onboarding:".toList ++ ((e.beforeFamily.1 ++
        ("ProviderOnboardingMode::".toList ++ e.record.family.1)) ++
          (',' :: e.behind.1 ++ rest)))))) := by
    unfold Entry.text Entry.familyText
    simp only [List.append_assoc, List.cons_append]
  have hname : family ("onboarding:".toList ++ ((e.beforeFamily.1 ++
      ("ProviderOnboardingMode::".toList ++ e.record.family.1)) ++ (',' :: e.behind.1 ++ rest))) =
        some (e.record.family.1, ',' :: e.behind.1 ++ rest) := by
    simp only [List.append_assoc]
    exact family_field e.beforeFamily e.record.family _
  rw [htext, ledBy_family.allMatches_other ha isField_canonicalId (by decide),
    ledBy_family.allMatches_other e.colon_not_mem_idText isField_aliases (by decide),
    ledBy_family.allMatches_found e.colon_not_mem_listText hname]

/-- Only a list that stands on one line is a match. -/
theorem Entry.allMatches_aliasList :
    allMatches aliasList (a ++ (e.text ++ rest)) =
      (match e.layout with
        | .line => [items [' '] e.record.aliases]
        | .spread _ _ _ => []) ++ allMatches aliasList (e.familyText ++ rest) := by
  let behind := "onboarding:".toList ++ (e.beforeFamily.1 ++
    ("ProviderOnboardingMode::".toList ++ (e.familyText ++ rest)))
  have htext : e.text ++ rest = "canonical_id:".toList ++ (e.idText ++ ("aliases:".toList ++
      (e.listText ++ behind))) := by
    unfold Entry.text
    simp only [behind, List.append_assoc]
  have hbehind {b : List Char} (hb : ':' ∉ b) :
      allMatches aliasList (b ++ behind) = allMatches aliasList (e.familyText ++ rest) :=
    allMatches_familyField ledBy_aliasList (by decide) (by decide) hb e.beforeFamily _
  have hlist : aliasList ("aliases:".toList ++ (e.listText ++ behind)) =
      listBody (e.layout.text e.record.aliases ++
        ("],".toList ++ (e.beforeOnboarding.1 ++ behind))) := by
    unfold Entry.listText
    rw [List.append_assoc, List.append_assoc, List.append_assoc, List.append_assoc]
    exact aliasList_field e.beforeList _
  rw [htext, ledBy_aliasList.allMatches_other ha isField_canonicalId (by decide)]
  cases hlayout : e.layout with
  | line =>
    have hplain : ∀ c ∈ items [' '] e.record.aliases, c ≠ ']' ∧ c ≠ '\n' := by
      intro c hc
      constructor
      · rintro rfl
        exact not_mem_items rfl (by decide) (by decide) (by decide) e.record.aliases hc
      · rintro rfl
        exact not_mem_items rfl (by decide) (by decide) (by decide) e.record.aliases hc
    have hopen : e.listText ++ behind = (e.beforeList.1 ++ ("&[".toList ++
        (items [' '] e.record.aliases ++ "],".toList))) ++ (e.beforeOnboarding.1 ++ behind) := by
      unfold Entry.listText
      rw [hlayout, ListLayout.text]
      simp only [List.append_assoc]
    rw [hlayout, ListLayout.text, listBody_append hplain, hopen] at hlist
    rw [hopen, ledBy_aliasList.allMatches_found e.colon_not_mem_idText hlist,
      hbehind (e.beforeOnboarding.not_mem rfl)]
    rfl
  | spread indent closing trailing =>
    -- The first line break ends the search for the closing bracket.
    have hbreak : aliasList ("aliases:".toList ++ (e.listText ++ behind)) = none := by
      rw [hlist, hlayout]
      rfl
    rw [ledBy_aliasList.allMatches_missed e.colon_not_mem_idText hbreak,
      hbehind e.colon_not_mem_listText]
    rfl

end Fields

end ReleaseGate.Providers
