import Mathlib.Data.List.Infix
import ReleaseGate.Text.Search

/-!
# Forms behind the name of a field

A form that begins with a name and a colon can match only where a colon ends that name. So its
matches in a text are found by going from colon to colon.
-/
namespace ReleaseGate.Text

variable {form : Form α}

/-- A form fails wherever it starts inside `a`, so the scan passes it. -/
theorem allMatches_append_of_none {a s : List Char}
    (h : ∀ t, t ≠ [] → t <:+ a → form (t ++ s) = none) :
    allMatches form (a ++ s) = allMatches form s := by
  induction a with
  | nil => rfl
  | cons c a ih =>
    have hhead : form (c :: (a ++ s)) = none := h (c :: a) (List.cons_ne_nil c a) List.suffix_rfl
    have hrest : allMatches form (a ++ s) = allMatches form s :=
      ih fun t hne ht => h t hne (ht.trans (List.suffix_cons c a))
    rw [List.cons_append, allMatches, matchesFrom, hhead]
    exact hrest

/-- What a form matches at the start of a text is followed by its matches behind that. -/
theorem allMatches_of_eq_some {front tail : List Char} {x : α} (hne : front ≠ [])
    (h : form (front ++ tail) = some (x, tail)) :
    allMatches form (front ++ tail) = x :: allMatches form tail := by
  obtain ⟨c, front, rfl⟩ := List.exists_cons_of_ne_nil hne
  rw [List.cons_append] at h ⊢
  have hlength : (front ++ tail).length - tail.length = front.length := by simp
  rw [allMatches, matchesFrom, h]
  simp only [hlength, matchesFrom_skip]
  rfl

/-- The name of a field, with the colon that ends it. -/
structure IsField (word : List Char) : Prop where
  name_ne : word.dropLast ≠ []
  name_colon : ':' ∉ word.dropLast
  ends : word = word.dropLast ++ [':']

/-- Every match of the form begins with the name of a field. -/
structure LedBy (form : Form α) (word : List Char) : Prop extends IsField word where
  leads : ∀ s, (form s).isSome → (after? word s).isSome

theorem takeWhile_ne {mark : Char} {a : List Char} (ha : mark ∉ a) (b : List Char) :
    (a ++ mark :: b).takeWhile (· != mark) = a := by
  have hall : ∀ c ∈ a, (c != mark) = true := fun c hc => by
    simpa using fun he : c = mark => ha (he ▸ hc)
  rw [List.takeWhile_append_of_pos hall, List.takeWhile_cons_of_neg (by simp), List.append_nil]

/-- The first colon of a text can only end the name that the text starts with. -/
theorem IsField.eq_dropLast {word a b : List Char} (h : IsField word) (ha : ':' ∉ a)
    (hstart : (after? word (a ++ ':' :: b)).isSome) : a = word.dropLast := by
  obtain ⟨rest, hrest⟩ := Option.isSome_iff_exists.1 hstart
  have htext : a ++ ':' :: b = word.dropLast ++ ':' :: rest := by
    rw [eq_append_of_after? hrest, ← List.singleton_append, ← List.append_assoc, ← h.ends]
  rw [← takeWhile_ne ha b, htext, takeWhile_ne h.name_colon]

namespace LedBy

variable {word : List Char}

theorem eq_none (h : LedBy form word) {a b : List Char} (ha : ':' ∉ a)
    (hne : a ≠ word.dropLast) : form (a ++ ':' :: b) = none := by
  rw [← Option.not_isSome_iff_eq_none]
  exact fun hsome => hne (h.eq_dropLast ha (h.leads _ hsome))

theorem allMatches_eq_nil (h : LedBy form word) {s : List Char} (hs : ':' ∉ s) :
    allMatches form s = [] := by
  rw [← List.append_nil s]
  apply (allMatches_append_of_none fun t _ ht => ?_).trans rfl
  rw [← Option.not_isSome_iff_eq_none, List.append_nil]
  intro hsome
  obtain ⟨rest, hrest⟩ := Option.isSome_iff_exists.1 (h.leads _ hsome)
  apply hs
  apply ht.subset
  rw [eq_append_of_after? hrest, h.ends]
  simp

/-- A colon is passed unless the form matches at the name that it ends. -/
theorem allMatches_colon (h : LedBy form word) {a b : List Char} (ha : ':' ∉ a)
    (hnone : word.dropLast <:+ a → form (word ++ b) = none) :
    allMatches form (a ++ ':' :: b) = allMatches form b := by
  rw [← List.singleton_append, ← List.append_assoc]
  apply allMatches_append_of_none
  intro t hne ht
  obtain rfl | ⟨u, rfl, hu⟩ := List.suffix_concat_iff.1 ht
  · exact absurd rfl hne
  rw [List.append_assoc, List.singleton_append]
  by_cases heq : u = word.dropLast
  · rw [heq, ← List.singleton_append, ← List.append_assoc, ← h.ends]
    exact hnone (heq ▸ hu)
  · exact h.eq_none (fun hc => ha (hu.subset hc)) heq

/-- The name of another field is passed. -/
theorem allMatches_other (h : LedBy form word) {a other b : List Char} (ha : ':' ∉ a)
    (hother : IsField other) (hapart : ¬ word <:+ other ∧ ¬ other <:+ word) :
    allMatches form (a ++ (other ++ b)) = allMatches form b := by
  have hname : ¬ word.dropLast <:+ a ++ other.dropLast := by
    intro hs
    have hword : word <:+ a ++ other := by
      rw [h.ends, hother.ends, ← List.append_assoc]
      exact List.suffix_append_self_iff.2 hs
    rcases List.suffix_or_suffix_of_suffix hword (List.suffix_append a other) with hs | hs
    · exact hapart.1 hs
    · exact hapart.2 hs
  rw [hother.ends, List.append_assoc, List.singleton_append, ← List.append_assoc]
  exact h.allMatches_colon (List.not_mem_append ha hother.name_colon) fun hs => absurd hs hname

/-- The name itself is passed if the form does not match there. -/
theorem allMatches_missed (h : LedBy form word) {a b : List Char} (ha : ':' ∉ a)
    (hnone : form (word ++ b) = none) : allMatches form (a ++ (word ++ b)) = allMatches form b := by
  have htext : a ++ (word ++ b) = (a ++ word.dropLast) ++ ':' :: b := by
    rw [← List.singleton_append, List.append_assoc, ← List.append_assoc word.dropLast, ← h.ends]
  rw [htext]
  exact h.allMatches_colon (List.not_mem_append ha h.name_colon) fun _ => hnone

theorem allMatches_found (h : LedBy form word) {a body tail : List Char} {x : α} (ha : ':' ∉ a)
    (hsome : form (word ++ (body ++ tail)) = some (x, tail)) :
    allMatches form (a ++ (word ++ (body ++ tail))) = x :: allMatches form tail := by
  have hskip : allMatches form (a ++ (word ++ (body ++ tail))) =
      allMatches form (word ++ (body ++ tail)) := by
    apply allMatches_append_of_none
    intro t hne ht
    rw [h.ends, List.append_assoc, List.singleton_append, ← List.append_assoc]
    apply h.eq_none (List.not_mem_append (fun hc => ha (ht.subset hc)) h.name_colon)
    simpa using hne
  have hword : word ≠ [] := by
    rintro rfl
    exact h.name_ne rfl
  rw [hskip]
  rw [← List.append_assoc] at hsome ⊢
  exact allMatches_of_eq_some (List.append_ne_nil_of_left_ne_nil hword body) hsome

end LedBy

end ReleaseGate.Text
