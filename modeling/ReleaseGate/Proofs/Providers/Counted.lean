import Mathlib.Algebra.BigOperators.Group.List.Basic
import Mathlib.Algebra.GroupWithZero.Nat
import Mathlib.Data.Finset.Card
import ReleaseGate.Proofs.Providers.Record

/-!
# Counts of provider records

Records that are written in a text are counted exactly, in whatever order they stand there, as long
as each list of aliases stands on one line. The aliases of a list that is broken into lines are lost
from the count; ids and families are not.
-/
namespace ReleaseGate.Providers

open Text

/-- What a form finds in the records one by one is what it finds in the text of all. -/
theorem allMatches_textOf {α : Type} {form : Form α} {word : List Char} (h : LedBy form word)
    {found : Entry → List α} {left : Entry → List Char} (hleft : ∀ e, ':' ∉ left e)
    (hstep : ∀ e a rest, ':' ∉ a →
      allMatches form (a ++ (e.text ++ rest)) = found e ++ allMatches form (left e ++ rest))
    (before : Filler) (entries : List Entry) :
    allMatches form (textOf before entries) = entries.flatMap found := by
  have hall : ∀ a, ':' ∉ a →
      allMatches form (a ++ entries.flatMap Entry.text) = entries.flatMap found := by
    induction entries with
    | nil =>
      intro a ha
      rw [List.flatMap_nil, List.append_nil]
      exact h.allMatches_eq_nil ha
    | cons e entries ih =>
      intro a ha
      rw [List.flatMap_cons, List.flatMap_cons, hstep e a _ ha, ih (left e) (hleft e)]
  exact hall before.1 before.2

theorem nodup_eraseDups {α : Type} [BEq α] [LawfulBEq α] (l : List α) : l.eraseDups.Nodup := by
  induction h : l.length using Nat.strong_induction_on generalizing l with
  | _ n ih =>
    cases l with
    | nil => simp
    | cons a l =>
      have hshorter : (l.filter fun b => !b == a).length < n := by
        have hle := List.length_filter_le (fun b => !b == a) l
        rw [← h, List.length_cons]
        omega
      rw [List.eraseDups_cons, List.nodup_cons]
      constructor
      · simp [List.mem_eraseDups]
      · exact ih _ hshorter _ rfl

theorem length_eraseDups {α : Type} [BEq α] [LawfulBEq α] [DecidableEq α] (l : List α) :
    l.eraseDups.length = l.toFinset.card := by
  rw [← List.toFinset_card_of_nodup (nodup_eraseDups l)]
  congr 1
  ext a
  simp [List.mem_eraseDups]

theorem Entry.flatMap_quotedItem (e : Entry) :
    (match e.layout with
      | .line => [items [' '] e.record.aliases]
      | .spread _ _ _ => []).flatMap (allMatches quotedItem) = e.listed.map (·.1) := by
  unfold listed
  cases e.layout with
  | line => simp [allMatches_items]
  | spread indent closing trailing => rfl

theorem Counts.ofText_textOf (before : Filler) (entries : List Entry) :
    Counts.ofText (textOf before entries) =
      { canonicalIds := entries.length
        aliasIds := (entries.map (·.listed.length)).sum
        families := (entries.map (·.record.family)).toFinset.card } := by
  have hids : allMatches canonicalId (textOf before entries) =
      entries.flatMap fun e => [e.record.id.1] :=
    allMatches_textOf ledBy_canonicalId Entry.colon_not_mem_familyText
      (fun e _ rest ha => e.allMatches_canonicalId ha rest) before entries
  have hlists : allMatches aliasList (textOf before entries) = entries.flatMap fun e =>
      match e.layout with
      | .line => [items [' '] e.record.aliases]
      | .spread _ _ _ => [] :=
    allMatches_textOf ledBy_aliasList Entry.colon_not_mem_familyText
      (fun e _ rest ha => e.allMatches_aliasList ha rest) before entries
  have hbehind : ∀ e : Entry, ':' ∉ ',' :: e.behind.1 := fun e =>
    List.not_mem_cons_of_ne_of_not_mem (by decide) e.behind.2
  have hfamilies : allMatches family (textOf before entries) =
      entries.flatMap fun e => [e.record.family.1] :=
    allMatches_textOf ledBy_family hbehind (fun e _ rest ha => e.allMatches_family ha rest)
      before entries
  have hdistinct : (entries.map (·.record.family.1)).eraseDups.length =
      (entries.map (·.record.family)).toFinset.card := by
    have himage : (entries.map (·.record.family.1)).toFinset =
        (entries.map (·.record.family)).toFinset.image Subtype.val := by
      ext name
      simp
    rw [length_eraseDups, himage, Finset.card_image_of_injective _ Subtype.val_injective]
  unfold Counts.ofText
  rw [hids, hlists, hfamilies, List.flatMap_assoc]
  simp only [Entry.flatMap_quotedItem, ← List.map_eq_flatMap, List.length_map, List.length_flatMap,
    hdistinct]

/-- Records that are written in any order, with each list of aliases on one line, are counted
exactly: ids and aliases as often as they occur, families once each. -/
theorem Counts.ofText_records (before : Filler) {entries : List Entry} {records : List Record}
    (hline : ∀ e ∈ entries, e.layout = .line)
    (hrecords : (entries.map (·.record)).Perm records) :
    Counts.ofText (textOf before entries) =
      { canonicalIds := records.length
        aliasIds := (records.map (·.aliases.length)).sum
        families := (records.map (·.family)).toFinset.card } := by
  have hlisted : entries.map (·.listed.length) =
      (entries.map (·.record)).map (·.aliases.length) := by
    rw [List.map_map]
    apply List.map_congr_left
    intro e he
    rw [Entry.listed, hline e he]
    rfl
  have hlength : entries.length = records.length := by
    rw [← hrecords.length_eq, List.length_map]
  have hfamilies : (entries.map (·.record.family)).toFinset =
      (records.map (·.family)).toFinset := by
    rw [← List.toFinset_eq_of_perm _ _ (hrecords.map (·.family)), List.map_map]
    rfl
  rw [Counts.ofText_textOf, hlisted, (hrecords.map (·.aliases.length)).sum_eq, hlength, hfamilies]

/-- Two providers of one family and one of another, which has no aliases. -/
def threeRecords : List Record :=
  [⟨⟨"anthropic".toList, by decide⟩,
      [⟨"claude".toList, by decide⟩, ⟨"anthropic-messages".toList, by decide⟩],
      ⟨"BuiltInNative".toList, by decide⟩⟩,
    ⟨⟨"groq".toList, by decide⟩, [], ⟨"Preset_2".toList, by decide⟩⟩,
    ⟨⟨"open.ai".toList, by decide⟩, [⟨"gpt".toList, by decide⟩],
      ⟨"BuiltInNative".toList, by decide⟩⟩]

/-- A record between braces, with a line for each field and no blank before the list. -/
def Record.braced (r : Record) : Entry where
  record := r
  layout := .line
  beforeId := ⟨" ".toList, by decide⟩
  beforeAliases := ⟨"\n    ".toList, by decide⟩
  beforeList := ⟨[], by decide⟩
  beforeOnboarding := ⟨"\n    ".toList, by decide⟩
  beforeFamily := ⟨"\n        ".toList, by decide⟩
  behind := ⟨"\n\x7d, \x7b\n    ".toList, by decide⟩

theorem Counts.ofText_records_three :
    (∀ e ∈ threeRecords.reverse.map Record.braced, e.layout = .line) ∧
      ((threeRecords.reverse.map Record.braced).map (·.record)).Perm threeRecords ∧
      Counts.ofText (textOf ⟨"\x7b ".toList, by decide⟩
        (threeRecords.reverse.map Record.braced)) = ⟨3, 3, 2⟩ := by
  have hline : ∀ e ∈ threeRecords.reverse.map Record.braced, e.layout = .line := by
    intro e he
    obtain ⟨r, -, rfl⟩ := List.mem_map.1 he
    rfl
  have hperm : ((threeRecords.reverse.map Record.braced).map (·.record)).Perm threeRecords := by
    rw [List.map_map]
    exact (List.Perm.of_eq (List.map_id threeRecords.reverse)).trans
      (List.reverse_perm threeRecords)
  refine ⟨hline, hperm, ?_⟩
  rw [Counts.ofText_records _ hline hperm]
  decide +kernel

namespace Entry

/-- The same record with its list on one line. -/
def inLine (e : Entry) : Entry :=
  { e with layout := .line }

/-- The aliases in a list that is broken into lines. -/
def lost (e : Entry) : List Name :=
  match e.layout with
  | .line => []
  | .spread _ _ _ => e.record.aliases

theorem length_listed_add_lost (e : Entry) :
    e.listed.length + e.lost.length = e.inLine.listed.length := by
  unfold listed lost inLine
  cases e.layout with
  | line => rfl
  | spread indent closing trailing => exact Nat.zero_add _

end Entry

/-- How the lists are laid out has no effect on the ids and the families. The aliases of each list
that is broken into lines are missing from the count, so the counts are the same as on one line
just if every such list is empty. -/
theorem Counts.ofText_inLine (before : Filler) (entries : List Entry) :
    let counts := Counts.ofText (textOf before entries)
    let whole := Counts.ofText (textOf before (entries.map Entry.inLine))
    counts.canonicalIds = whole.canonicalIds ∧ counts.families = whole.families ∧
      counts.aliasIds + (entries.map (·.lost.length)).sum = whole.aliasIds ∧
      (counts = whole ↔ ∀ e ∈ entries, e.lost = []) := by
  have hfamilies : (entries.map Entry.inLine).map (·.record.family) =
      entries.map (·.record.family) := by
    rw [List.map_map]
    rfl
  have haliases : (entries.map (·.listed.length)).sum + (entries.map (·.lost.length)).sum =
      ((entries.map Entry.inLine).map (·.listed.length)).sum := by
    rw [← List.sum_map_add, List.map_map]
    exact congrArg List.sum (List.map_congr_left fun e _ => e.length_listed_add_lost)
  simp only [Counts.ofText_textOf, hfamilies, List.length_map, ← haliases, Counts.mk.injEq,
    true_and, and_true]
  rw [left_eq_add, List.sum_eq_zero_iff_forall_eq_nat, List.forall_mem_map]
  simp only [List.length_eq_zero_iff]

/-- One provider whose only alias has a line of its own. -/
def brokenLine : Entry where
  record := ⟨⟨"groq".toList, by decide⟩, [⟨"groq-cloud".toList, by decide⟩],
    ⟨"Preset".toList, by decide⟩⟩
  layout := .spread ⟨"    ".toList, by decide⟩ ⟨[], by decide⟩ true
  beforeId := ⟨" ".toList, by decide⟩
  beforeAliases := ⟨" ".toList, by decide⟩
  beforeList := ⟨" ".toList, by decide⟩
  beforeOnboarding := ⟨" ".toList, by decide⟩
  beforeFamily := ⟨" ".toList, by decide⟩
  behind := ⟨"\n".toList, by decide⟩

example : brokenLine.text = ("canonical_id: \"groq\", aliases: &[\n    \"groq-cloud\",\n], " ++
    "onboarding: ProviderOnboardingMode::Preset,\n").toList := by
  decide

/-- Breaking the list into lines loses the alias. -/
theorem Counts.ofText_brokenLine :
    Counts.ofText (textOf ⟨[], List.not_mem_nil⟩ [brokenLine.inLine]) = ⟨1, 1, 1⟩ ∧
      Counts.ofText (textOf ⟨[], List.not_mem_nil⟩ [brokenLine]) = ⟨1, 0, 1⟩ := by
  decide +kernel

end ReleaseGate.Providers
