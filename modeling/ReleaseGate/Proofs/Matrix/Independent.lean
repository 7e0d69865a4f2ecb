import Mathlib.Data.List.Basic
import ReleaseGate.Entries
import ReleaseGate.Proofs.Matrix.Traced

/-!
# Requirements by themselves

Every requirement of a matrix is judged as if it were the only one. What the others are shows in one
thing alone: an id that one before has too is reported after what else there is to report.
-/
namespace ReleaseGate.Matrix

open Json

variable {present : String → Bool} {categories : List String} {requirement matrix : Value}
  {rs : List Value} {id : String}

/-- The violations of a matrix whatever its requirements are. -/
def generalViolations (matrix : Value) : List Violation :=
  missingKeys matrix ++ policyViolations matrix ++ categoryViolations matrix

/-- A violation of the matrix itself, not of one of its requirements. -/
def Violation.isGeneral : Violation → Bool
  | .requirementNotRecord => false
  | .requirementId => false
  | .requirement _ _ => false
  | .duplicateId _ => false
  | _ => true

theorem isGeneral_of_mem {v : Violation} (h : v ∈ generalViolations matrix) :
    v.isGeneral = true := by
  unfold generalViolations at h
  rw [List.mem_append, List.mem_append] at h
  obtain (hkey | hpolicy) | hcategory := h
  · obtain ⟨key, -, rfl⟩ := List.mem_map.1 hkey
    rfl
  · unfold policyViolations at hpolicy
    split at hpolicy
    · cases hpolicy
    · split at hpolicy
      · cases hpolicy
      · rw [List.mem_singleton.1 hpolicy]
        rfl
  · unfold categoryViolations at hcategory
    rcases List.mem_append.1 hcategory with hlisted | hminimum
    · split at hlisted
      · obtain ⟨_, -, rfl⟩ := List.mem_map.1 hlisted
        rfl
      · rw [List.mem_singleton.1 hlisted]
        rfl
    · obtain ⟨name, -, rfl⟩ := List.mem_map.1 hminimum
      rfl

/-- The id of a requirement if one before it has the same. -/
def repeatedId? (before : List Value) (requirement : Value) : Option String :=
  (requirementId? requirement).filter fun id =>
    before.any fun earlier => requirementId? earlier == some id

theorem repeatedId?_eq_some_iff {before : List Value} :
    repeatedId? before requirement = some id ↔
      Tells requirement "id" id ∧ ∃ earlier ∈ before, Tells earlier "id" id := by
  rw [repeatedId?, Option.filter_eq_some_iff, List.any_eq_true]
  simp only [requirementId?, filledText?_eq_some_iff, beq_iff_eq]

/-- The ids that have been seen are those of the requirements before. -/
theorem requirementsViolations_eq {seen : List String} {before : List Value}
    (h : ∀ id, id ∈ seen ↔ ∃ earlier ∈ before, requirementId? earlier = some id) :
    requirementsViolations present categories seen rs = rs.zipIdx.flatMap fun x =>
      requirementViolations present categories x.1 ++
        (repeatedId? (before ++ rs.take x.2) x.1).toList.map .duplicateId := by
  induction rs generalizing seen before with
  | nil => rfl
  | cons r rs ih =>
    have hrest : ∀ {seen' : List String},
        (∀ id, id ∈ seen' ↔ id ∈ seen ∨ requirementId? r = some id) →
        requirementsViolations present categories seen' rs = (rs.zipIdx 1).flatMap fun x =>
          requirementViolations present categories x.1 ++
            (repeatedId? (before ++ (r :: rs).take x.2) x.1).toList.map .duplicateId := by
      intro seen' hseen
      have hboth : ∀ id, id ∈ seen' ↔
          ∃ earlier ∈ before ++ [r], requirementId? earlier = some id := by
        intro id
        simp only [hseen, h, List.mem_append, List.mem_singleton, or_and_right, exists_or,
          exists_eq_left]
      rw [ih hboth, List.zipIdx_succ, List.flatMap_map]
      simp only [List.append_assoc, List.singleton_append, List.take_succ_cons]
    rw [requirementsViolations, List.zipIdx_cons, List.flatMap_cons, List.append_assoc]
    simp only [List.take_zero, List.append_nil]
    congr 1
    cases hid : requirementId? r with
    | none =>
      have hrepeated : repeatedId? before r = none := by simp [repeatedId?, hid]
      simp only [hrepeated, Option.toList_none, List.map_nil, List.nil_append]
      apply hrest
      simp [hid]
    | some id =>
      have hany : (before.any fun earlier => requirementId? earlier == some id) =
          seen.contains id := by
        rw [Bool.eq_iff_iff, List.contains_iff_mem, h, List.any_eq_true]
        simp only [beq_iff_eq]
      have hrepeated : (repeatedId? before r).toList.map Violation.duplicateId =
          if seen.contains id then [.duplicateId id] else [] := by
        rw [repeatedId?, hid, Option.filter_some, hany]
        split <;> rfl
      simp only [hrepeated]
      congr 1
      apply hrest
      intro id'
      rw [hid, List.mem_cons, Option.some.injEq, or_comm, @eq_comm _ id]

theorem mem_requirementViolations {v : Violation}
    (h : v ∈ requirementViolations present categories requirement) :
    v = .requirementNotRecord ∨ v = .requirementId ∨ ∃ id defect, v = .requirement id defect := by
  unfold requirementViolations at h
  split at h
  case isFalse => exact .inl (List.mem_singleton.1 h)
  case isTrue =>
    split at h
    case h_1 id _ =>
      obtain ⟨defect, -, rfl⟩ := List.mem_map.1 h
      exact .inr (.inr ⟨id, defect, rfl⟩)
    case h_2 => exact .inr (.inl (List.mem_singleton.1 h))

theorem count_duplicateId_requirementViolations :
    (requirementViolations present categories requirement).count (.duplicateId id) = 0 := by
  rw [List.count_eq_zero]
  intro hmem
  rcases mem_requirementViolations hmem with h | h | ⟨_, _, h⟩ <;> cases h

/-- An id that has been seen is reported whenever it comes, and else only after the first time. -/
theorem count_duplicateId_requirementsViolations (seen : List String) :
    (requirementsViolations present categories seen rs).count (.duplicateId id) =
      rs.countP (requirementId? · == some id) - if id ∈ seen then 0 else 1 := by
  induction rs generalizing seen with
  | nil => simp [requirementsViolations]
  | cons r rs ih =>
    rw [requirementsViolations, List.count_append, count_duplicateId_requirementViolations,
      Nat.zero_add, List.countP_cons]
    cases hid : requirementId? r with
    | none => simp [ih]
    | some first =>
      simp only [List.count_append, ih]
      by_cases he : first = id
      · subst he
        by_cases hs : first ∈ seen
        · simp [hs, Nat.add_comm]
        · simp [hs]
      · have hother : (if seen.contains first then [Violation.duplicateId first] else []).count
            (.duplicateId id) = 0 := by
          rw [List.count_eq_zero]
          split <;> simp [Ne.symm he]
        rw [hother]
        simp [he, Ne.symm he]

/-- A matrix with other requirements. -/
def withRequirements (rs : List Value) : Value → Value
  | .record fields => .record (Entries.set "requirements" (.list rs) fields)
  | v => v

theorem field?_withRequirements (h : matrix.isRecord = true) (key : String) :
    (withRequirements rs matrix).field? key =
      if key = "requirements" then some (.list rs) else matrix.field? key := by
  obtain ⟨fields, rfl⟩ := Value.isRecord_iff.1 h
  exact Entries.lookup_set "requirements" key (.list rs) fields

theorem policy_withRequirements (h : matrix.isRecord = true) :
    policy (withRequirements rs matrix) = policy matrix ∧
      policyViolations (withRequirements rs matrix) = policyViolations matrix := by
  have hfield : (withRequirements rs matrix).field? "ci_policy" = matrix.field? "ci_policy" := by
    rw [field?_withRequirements h, if_neg (by decide)]
  constructor
  · rw [policy, policy, hfield]
  · rw [policyViolations, policyViolations, hfield]

theorem requiredCategories_withRequirements (h : matrix.isRecord = true) :
    requiredCategories (withRequirements rs matrix) = requiredCategories matrix := by
  rw [requiredCategories, requiredCategories, (policy_withRequirements h).1]

/-- What is wrong with a matrix that has requirements is not mended by others. -/
theorem generalViolations_withRequirements (h : matrix.isRecord = true)
    (hkey : matrix.field? "requirements" ≠ none) :
    generalViolations (withRequirements rs matrix) = generalViolations matrix := by
  have hkeys : missingKeys (withRequirements rs matrix) = missingKeys matrix := by
    unfold missingKeys
    congr 1
    apply List.filter_congr
    intro key _
    rw [field?_withRequirements h]
    split
    case isTrue hrequirements =>
      rw [hrequirements, Option.isNone_some, Option.isNone_eq_false_iff.2]
      exact Option.isSome_iff_ne_none.2 hkey
    case isFalse => rfl
  have hcategories : categoryViolations (withRequirements rs matrix) =
      categoryViolations matrix := by
    rw [categoryViolations, categoryViolations, requiredCategories_withRequirements h,
      (policy_withRequirements h).1]
  rw [generalViolations, generalViolations, hkeys, (policy_withRequirements h).2, hcategories]

theorem violations_check_of_isRecord (h : matrix.isRecord = true) :
    (check present matrix).violations = generalViolations matrix ++ requirementsMissing matrix ++
      requirementsViolations present (requiredCategories matrix) [] (requirements matrix) := by
  rw [check, if_pos h]
  rfl

theorem check_of_not_isRecord (h : ¬ matrix.isRecord = true) :
    check present matrix = { violations := [.notRecord] } := by
  rw [check, if_neg h]

theorem violations_check (hlist : matrix.field? "requirements" = some (.list rs)) (hne : rs ≠ []) :
    (check present matrix).violations = generalViolations matrix ++
      requirementsViolations present (requiredCategories matrix) [] rs := by
  have hfilled : filledList? matrix "requirements" = some rs :=
    filledList?_eq_some_iff.2 ⟨hlist, hne⟩
  rw [violations_check_of_isRecord (Value.isRecord_of_field? hlist)]
  simp only [requirementsMissing, requirements, hfilled, Option.isSome_some, if_true,
    List.append_nil, Option.getD_some]

/-- A matrix that has requirements is reported on by what there is to report of the matrix itself
and then, in their order, of each requirement what there would be to report of it as the only one,
with a line after it if its id is that of one before. So an id is reported as often as it comes, but
for the first time. -/
theorem violations_check_eq_flatMap (present : String → Bool)
    (hlist : matrix.field? "requirements" = some (.list rs)) (hne : rs ≠ []) :
    (check present matrix).violations = generalViolations matrix ++ rs.zipIdx.flatMap (fun x =>
        requirementViolations present (requiredCategories matrix) x.1 ++
          (repeatedId? (rs.take x.2) x.1).toList.map .duplicateId) ∧
      (∀ r, (check present (withRequirements [r] matrix)).violations =
        generalViolations matrix ++ requirementViolations present (requiredCategories matrix) r) ∧
      (∀ before r id, repeatedId? before r = some id ↔
        Tells r "id" id ∧ ∃ earlier ∈ before, Tells earlier "id" id) ∧
      ∀ id, (check present matrix).violations.count (.duplicateId id) =
        rs.countP (requirementId? · == some id) - 1 := by
  have hrecord := Value.isRecord_of_field? hlist
  refine ⟨?_, fun r => ?_, fun before r id => repeatedId?_eq_some_iff, fun id => ?_⟩
  · have hnone : ∀ id : String, id ∈ [] ↔ ∃ earlier ∈ ([] : List Value),
        requirementId? earlier = some id := by simp
    rw [violations_check hlist hne, requirementsViolations_eq hnone]
    simp only [List.nil_append]
  · have hsole : (withRequirements [r] matrix).field? "requirements" = some (.list [r]) := by
      rw [field?_withRequirements hrecord, if_pos rfl]
    have hown : requirementsViolations present (requiredCategories matrix) [] [r] =
        requirementViolations present (requiredCategories matrix) r := by
      rw [requirementsViolations]
      cases requirementId? r <;> simp [requirementsViolations]
    rw [violations_check hsole (List.cons_ne_nil _ _), requiredCategories_withRequirements hrecord,
      generalViolations_withRequirements hrecord (by simp [hlist]), hown]
  · have hgeneral : (generalViolations matrix).count (.duplicateId id) = 0 := by
      rw [List.count_eq_zero]
      intro hmem
      cases isGeneral_of_mem hmem
    rw [violations_check hlist hne, List.count_append, hgeneral, Nat.zero_add,
      count_duplicateId_requirementsViolations]
    simp

/-- Of its requirements the second and the fourth have no id that could be repeated. -/
def mixedRequirements : List Value :=
  [.record [("id", .text "R")], .null, .record [("id", .text "R")], .record [("id", .text " ")],
    .record [("id", .text "R")]]

theorem violations_check_eq_flatMap_mixedRequirements :
    ∃ matrix, matrix = Value.record [("requirements", .list mixedRequirements)] ∧
      (check (fun _ => false) matrix).violations = generalViolations matrix ++
        mixedRequirements.zipIdx.flatMap (fun x =>
          requirementViolations (fun _ => false) (requiredCategories matrix) x.1 ++
            (repeatedId? (mixedRequirements.take x.2) x.1).toList.map .duplicateId) ∧
      repeatedId? (mixedRequirements.take 2) (.record [("id", .text "R")]) = some "R" ∧
      (check (fun _ => false) matrix).violations.count (.duplicateId "R") = 2 := by
  have hlist : (Value.record [("requirements", .list mixedRequirements)]).field? "requirements" =
      some (.list mixedRequirements) := by
    rfl
  obtain ⟨hviolations, -, hrepeated, hcount⟩ :=
    violations_check_eq_flatMap (fun _ => false) hlist (List.cons_ne_nil _ _)
  have htells : Tells (.record [("id", .text "R")]) "id" "R" := ⟨rfl, 'R', by decide, by decide⟩
  refine ⟨_, rfl, hviolations, (hrepeated _ _ _).2 ⟨htells, _, List.mem_cons_self, htells⟩, ?_⟩
  rw [hcount]
  decide

end ReleaseGate.Matrix
