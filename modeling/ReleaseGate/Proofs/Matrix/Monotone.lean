import ReleaseGate.Proofs.Matrix.Independent

/-!
# Matrices and growing trees

Where more paths lead to something, a check reports less and nothing else: it leaves out the reports
of paths that now lead to something, and all that remains is reported in the order in which it was.
-/
namespace ReleaseGate.Matrix

open Json

variable {present more : String → Bool} {categories : List String} {requirement matrix : Value}

/-- Whether a defect of an entry is left where the paths are present. -/
def EntryDefect.stays (present : String → Bool) : EntryDefect → Bool
  | .absent named => !present named
  | _ => true

def RequirementDefect.stays (present : String → Bool) : RequirementDefect → Bool
  | .entry _ _ defect => defect.stays present
  | _ => true

def Violation.stays (present : String → Bool) : Violation → Bool
  | .requirement _ defect => defect.stays present
  | _ => true

theorem stays_of_isGeneral {v : Violation} (h : v.isGeneral = true) : v.stays present = true := by
  cases v with
  | requirement id defect => cases h
  | _ => rfl

section Filter

variable (h : ∀ path, present path = true → more path = true)

include h

theorem entryDefects_eq_filter (entry : Value) :
    entryDefects more entry = (entryDefects present entry).filter (·.stays more) := by
  unfold entryDefects
  split
  case isFalse => rfl
  case isTrue =>
    cases filledText? entry "path" with
    | none => rfl
    | some path =>
      cases hmarked : isMarkedGenerated entry with
      | true => simp
      | false =>
        cases hpresent : present path with
        | true => simp [hpresent, h path hpresent]
        | false => cases hmore : more path <;> simp [EntryDefect.stays, hpresent, hmore]

theorem entriesDefects_eq_filter (category : String) (index : Nat) (entries : List Value) :
    entriesDefects more category index entries =
      (entriesDefects present category index entries).filter (·.stays more) := by
  induction entries generalizing index with
  | nil => rfl
  | cons entry entries ih =>
    rw [entriesDefects, entriesDefects, List.filter_append, List.filter_map, ← ih,
      entryDefects_eq_filter h]
    rfl

theorem categoryDefects_eq_filter (requirement : Value) (category : String) :
    categoryDefects more requirement category =
      (categoryDefects present requirement category).filter (·.stays more) := by
  unfold categoryDefects
  cases filledList? requirement category with
  | none => rfl
  | some entries => exact entriesDefects_eq_filter h category 0 entries

theorem requirementViolations_eq_filter (categories : List String) (requirement : Value) :
    requirementViolations more categories requirement =
      (requirementViolations present categories requirement).filter (·.stays more) := by
  unfold requirementViolations
  split
  case isFalse => rfl
  case isTrue =>
    cases requirementId? requirement with
    | none => rfl
    | some id =>
      have hfields : (fieldDefects requirement).filter (·.stays more) =
          fieldDefects requirement := by
        apply List.filter_eq_self.2
        intro defect hmem
        obtain ⟨key, -, rfl⟩ := List.mem_map.1 hmem
        rfl
      have hcategories : categories.flatMap (categoryDefects more requirement) =
          (categories.flatMap (categoryDefects present requirement)).filter (·.stays more) := by
        rw [List.filter_flatMap]
        exact List.flatMap_congr fun category _ => categoryDefects_eq_filter h requirement category
      have hstays : (Violation.stays more ∘ Violation.requirement id) =
          RequirementDefect.stays more := rfl
      simp only [hcategories, List.filter_map, List.filter_append, hfields, hstays]

theorem requirementsViolations_eq_filter (categories seen : List String)
    (requirements : List Value) :
    requirementsViolations more categories seen requirements =
      (requirementsViolations present categories seen requirements).filter (·.stays more) := by
  induction requirements generalizing seen with
  | nil => rfl
  | cons requirement requirements ih =>
    rw [requirementsViolations, requirementsViolations, List.filter_append,
      ← requirementViolations_eq_filter h]
    cases requirementId? requirement with
    | none => simp only [ih]
    | some id =>
      have hduplicate : ∀ repeated : Prop, [Decidable repeated] →
          (if repeated then [Violation.duplicateId id] else []).filter (·.stays more) =
            if repeated then [Violation.duplicateId id] else [] := by
        intro repeated _
        split <;> rfl
      simp only [List.filter_append, hduplicate, ih]

theorem violations_check_eq_filter (matrix : Value) :
    (check more matrix).violations =
      (check present matrix).violations.filter (·.stays more) := by
  by_cases hrecord : matrix.isRecord = true
  · have hgeneral : (generalViolations matrix).filter (·.stays more) = generalViolations matrix :=
      List.filter_eq_self.2 fun v hv => stays_of_isGeneral (isGeneral_of_mem hv)
    have hmissing : (requirementsMissing matrix).filter (·.stays more) =
        requirementsMissing matrix := by
      unfold requirementsMissing
      split <;> rfl
    rw [violations_check_of_isRecord hrecord, violations_check_of_isRecord hrecord,
      List.filter_append, List.filter_append, hgeneral, hmissing,
      ← requirementsViolations_eq_filter h]
  · rw [check_of_not_isRecord hrecord, check_of_not_isRecord hrecord]
    rfl

end Filter

theorem absent_mem_entryDefects_iff {entry : Value} {path : String} :
    .absent path ∈ entryDefects present entry ↔ Tells entry "path" path ∧
      entry.field? "generated_by_ci" ≠ some (.bool true) ∧ present path = false := by
  unfold entryDefects
  by_cases hrecord : entry.isRecord = true
  · rw [if_pos hrecord]
    cases hpath : filledText? entry "path" with
    | none =>
      have hnot : ¬ Tells entry "path" path := by
        rw [← filledText?_eq_some_iff, hpath]
        exact nofun
      simp [hnot]
    | some found =>
      have htells : Tells entry "path" path ↔ found = path := by
        rw [← filledText?_eq_some_iff, hpath, Option.some.injEq]
      simp only [htells, Ne, ← isMarkedGenerated_iff]
      constructor
      · intro hmem
        split at hmem
        case isTrue => cases hmem
        case isFalse hneither =>
          cases List.mem_singleton.1 hmem
          rw [Bool.or_eq_true, not_or] at hneither
          exact ⟨rfl, hneither.1, Bool.eq_false_iff.2 hneither.2⟩
      · rintro ⟨rfl, hmarked, hpresent⟩
        rw [if_neg (by simp [hmarked, hpresent])]
        exact List.mem_singleton_self _
  · have hnot : ¬ Tells entry "path" path := by
      rintro ⟨hfield, -⟩
      exact hrecord (Value.isRecord_of_field? hfield)
    simp [if_neg hrecord, hnot]

theorem entry_mem_entriesDefects_iff {category name : String} {start index : Nat}
    {entries : List Value} {defect : EntryDefect} :
    .entry name index defect ∈ entriesDefects present category start entries ↔
      name = category ∧ ∃ k entry, index = start + k ∧ entries[k]? = some entry ∧
        defect ∈ entryDefects present entry := by
  induction entries generalizing start with
  | nil => simp [entriesDefects]
  | cons entry entries ih =>
    rw [entriesDefects, List.mem_append, List.mem_map, ih]
    constructor
    · rintro (⟨_, hmem, he⟩ | ⟨hname, k, found, hk, hfound, hmem⟩)
      · cases he
        exact ⟨rfl, 0, entry, rfl, rfl, hmem⟩
      · exact ⟨hname, k + 1, found, by omega, hfound, hmem⟩
    · rintro ⟨rfl, k, found, rfl, hfound, hmem⟩
      cases k with
      | zero =>
        cases hfound
        exact .inl ⟨defect, hmem, rfl⟩
      | succ k => exact .inr ⟨rfl, k, found, by omega, hfound, hmem⟩

theorem entry_mem_categoryDefects_iff {category name : String} {index : Nat}
    {defect : EntryDefect} :
    .entry name index defect ∈ categoryDefects present requirement category ↔
      name = category ∧ ∃ entries entry, requirement.field? category = some (.list entries) ∧
        entries[index]? = some entry ∧ defect ∈ entryDefects present entry := by
  unfold categoryDefects
  cases hlist : filledList? requirement category with
  | none =>
    simp only [List.mem_singleton, reduceCtorEq, false_iff]
    rintro ⟨-, entries, entry, hfield, hentry, -⟩
    have hne : entries ≠ [] := by
      rintro rfl
      cases hentry
    rw [filledList?_eq_some_iff.2 ⟨hfield, hne⟩] at hlist
    cases hlist
  | some entries =>
    obtain ⟨hfield, -⟩ := filledList?_eq_some_iff.1 hlist
    rw [entry_mem_entriesDefects_iff]
    refine and_congr_right fun _ => ?_
    constructor
    · rintro ⟨k, entry, hk, hentry, hmem⟩
      rw [Nat.zero_add] at hk
      exact ⟨entries, entry, hfield, hk ▸ hentry, hmem⟩
    · rintro ⟨found, entry, hfound, hentry, hmem⟩
      rw [hfield, Option.some.injEq, Value.list.injEq] at hfound
      subst hfound
      exact ⟨index, entry, (Nat.zero_add index).symm, hentry, hmem⟩

theorem entry_mem_requirementViolations_iff {category id : String} {index : Nat}
    {defect : EntryDefect} :
    .requirement id (.entry category index defect) ∈
        requirementViolations present categories requirement ↔
      Tells requirement "id" id ∧ category ∈ categories ∧ ∃ entries entry,
        requirement.field? category = some (.list entries) ∧ entries[index]? = some entry ∧
          defect ∈ entryDefects present entry := by
  unfold requirementViolations
  by_cases hrecord : requirement.isRecord = true
  · rw [if_pos hrecord]
    have htells : Tells requirement "id" id ↔ requirementId? requirement = some id :=
      filledText?_eq_some_iff.symm
    cases hid : requirementId? requirement with
    | none => simp [htells, hid]
    | some found =>
      have hfields : .entry category index defect ∉ fieldDefects requirement := by
        simp [fieldDefects]
      rw [htells, hid, Option.some.injEq]
      constructor
      · intro hmem
        obtain ⟨_, hmem, he⟩ := List.mem_map.1 hmem
        cases he
        obtain ⟨name, hname, hentry⟩ :=
          List.mem_flatMap.1 ((List.mem_append.1 hmem).resolve_left hfields)
        obtain ⟨rfl, hentry⟩ := entry_mem_categoryDefects_iff.1 hentry
        exact ⟨rfl, hname, hentry⟩
      · rintro ⟨rfl, hcategory, hentry⟩
        apply List.mem_map_of_mem
        apply List.mem_append_right
        apply List.mem_flatMap.2
        exact ⟨category, hcategory, entry_mem_categoryDefects_iff.2 ⟨rfl, hentry⟩⟩
  · have hnot : ¬ Tells requirement "id" id := by
      rintro ⟨hfield, -⟩
      exact hrecord (Value.isRecord_of_field? hfield)
    simp [if_neg hrecord, hnot]

theorem requirement_mem_requirementsViolations_iff {id : String} {seen : List String}
    {rs : List Value} {defect : RequirementDefect} :
    .requirement id defect ∈ requirementsViolations present categories seen rs ↔
      ∃ r ∈ rs, .requirement id defect ∈ requirementViolations present categories r := by
  induction rs generalizing seen with
  | nil => simp [requirementsViolations]
  | cons r rs ih =>
    rw [requirementsViolations, List.mem_append, List.exists_mem_cons_iff]
    apply or_congr_right
    cases requirementId? r with
    | none => exact ih
    | some id' =>
      rw [List.mem_append, ih, or_iff_right]
      split <;> simp

/-- A requirement of the id has, at the index in a required category, an entry that names the path
and is not marked. -/
def Asks (matrix : Value) (id category : String) (index : Nat) (path : String) : Prop :=
  category ∈ requiredCategories matrix ∧ ∃ rs, matrix.field? "requirements" = some (.list rs) ∧
    ∃ requirement ∈ rs, Tells requirement "id" id ∧ ∃ entries entry,
      requirement.field? category = some (.list entries) ∧ entries[index]? = some entry ∧
        Tells entry "path" path ∧ entry.field? "generated_by_ci" ≠ some (.bool true)

theorem mem_requirements_iff : requirement ∈ requirements matrix ↔
    ∃ rs, matrix.field? "requirements" = some (.list rs) ∧ requirement ∈ rs := by
  unfold requirements
  cases hlist : filledList? matrix "requirements" with
  | none =>
    simp only [Option.getD_none, List.not_mem_nil, false_iff]
    rintro ⟨rs, hfield, hmem⟩
    rw [filledList?_eq_some_iff.2 ⟨hfield, List.ne_nil_of_mem hmem⟩] at hlist
    cases hlist
  | some found =>
    obtain ⟨hfound, -⟩ := filledList?_eq_some_iff.1 hlist
    simp [hfound]

/-- A path is reported as absent just where it is asked for and is absent. -/
theorem absent_mem_check_iff {id category path : String} {index : Nat} :
    .requirement id (.entry category index (.absent path)) ∈ (check present matrix).violations ↔
      Asks matrix id category index path ∧ present path = false := by
  by_cases hrecord : matrix.isRecord = true
  · have hgeneral : .requirement id (.entry category index (.absent path)) ∉
        generalViolations matrix ++ requirementsMissing matrix := by
      intro hmem
      rcases List.mem_append.1 hmem with hmem | hmem
      · cases isGeneral_of_mem hmem
      · unfold requirementsMissing at hmem
        split at hmem <;> simp at hmem
    rw [violations_check_of_isRecord hrecord, List.mem_append, or_iff_right hgeneral,
      requirement_mem_requirementsViolations_iff]
    simp only [entry_mem_requirementViolations_iff, absent_mem_entryDefects_iff,
      mem_requirements_iff]
    constructor
    · rintro ⟨r, ⟨rs, hrs, hr⟩, hid, hcategory, entries, entry, hentries, hentry, hpath, hmarked,
        habsent⟩
      exact ⟨⟨hcategory, rs, hrs, r, hr, hid, entries, entry, hentries, hentry, hpath, hmarked⟩,
        habsent⟩
    · rintro ⟨⟨hcategory, rs, hrs, r, hr, hid, entries, entry, hentries, hentry, hpath, hmarked⟩,
        habsent⟩
      exact ⟨r, ⟨rs, hrs, hr⟩, hid, hcategory, entries, entry, hentries, hentry, hpath, hmarked,
        habsent⟩
  · have hnot : ¬ Asks matrix id category index path := by
      rintro ⟨-, rs, hrs, -⟩
      exact hrecord (Value.isRecord_of_field? hrs)
    simp [check_of_not_isRecord hrecord, hnot]

/-- What is not left is a path that was absent. -/
theorem exists_absent_of_stays_eq_false {v : Violation} (h : v.stays more = false) :
    ∃ id category index path, v = .requirement id (.entry category index (.absent path)) ∧
      more path = true := by
  cases v with
  | requirement id defect =>
    cases defect with
    | entry category index defect =>
      cases defect with
      | absent path =>
        have hmore : (!more path) = false := h
        exact ⟨id, category, index, path, rfl, by simpa using hmore⟩
      | _ => cases h
    | _ => cases h
  | _ => cases h

theorem counts_check (present more : String → Bool) (matrix : Value) :
    (check more matrix).requirements = (check present matrix).requirements ∧
      (check more matrix).requiredCategories = (check present matrix).requiredCategories := by
  unfold check
  split <;> exact ⟨rfl, rfl⟩

theorem check_eq_of_violations
    (h : (check more matrix).violations = (check present matrix).violations) :
    check more matrix = check present matrix := by
  obtain ⟨hcount, hcategories⟩ := counts_check present more matrix
  cases hmore : check more matrix with
  | mk count categories violations =>
    rw [hmore] at hcount hcategories h
    cases hcount
    cases hcategories
    cases h
    rfl

theorem check_congr_of_le (h : ∀ path, present path = true → more path = true)
    (hagree : ∀ id category index path, Asks matrix id category index path →
      present path = more path) : check more matrix = check present matrix := by
  apply check_eq_of_violations
  rw [violations_check_eq_filter h, List.filter_eq_self]
  intro v hv
  cases hstays : v.stays more with
  | true => rfl
  | false =>
    obtain ⟨id, category, index, path, rfl, hmore⟩ := exists_absent_of_stays_eq_false hstays
    obtain ⟨hasks, habsent⟩ := absent_mem_check_iff.1 hv
    rw [hagree _ _ _ _ hasks, hmore] at habsent
    cases habsent

/-- Two choices of what is present agree if each agrees with what is present in both. -/
theorem check_congr_of_asks {other : String → Bool}
    (hagree : ∀ id category index path, Asks matrix id category index path →
      present path = other path) : check other matrix = check present matrix := by
  have hpresent : check present matrix = check (fun path => present path && other path) matrix := by
    apply check_congr_of_le
    · intro path hboth
      exact (Bool.and_eq_true_iff.1 hboth).1
    · intro id category index path hasks
      rw [← hagree _ _ _ _ hasks, Bool.and_self]
  have hother : check other matrix = check (fun path => present path && other path) matrix := by
    apply check_congr_of_le
    · intro path hboth
      exact (Bool.and_eq_true_iff.1 hboth).2
    · intro id category index path hasks
      rw [← hagree _ _ _ _ hasks, Bool.and_self]
  rw [hpresent, hother]

/-- Where more paths are present, a check counts the same requirements, demands the same categories
and reports the same in the same order, but for the paths that were absent and are not any more.
Only the paths of entries that are not marked as made during the run make a difference. -/
theorem check_of_more_present (h : ∀ path, present path = true → more path = true)
    (matrix : Value) :
    (check more matrix).requirements = (check present matrix).requirements ∧
      (check more matrix).requiredCategories = (check present matrix).requiredCategories ∧
      (check more matrix).messages.Sublist (check present matrix).messages ∧
      (∃ stays : Violation → Bool,
        (check more matrix).violations = (check present matrix).violations.filter stays ∧
        ∀ v ∈ (check present matrix).violations, stays v = false →
          ∃ id category index path, v = .requirement id (.entry category index (.absent path)) ∧
            (∃ location, v.message = location ++ ".path points to missing file/glob: " ++
              Text.quoted path ++ " (set generated_by_ci=true for CI-produced artifacts)") ∧
            Asks matrix id category index path ∧ more path = true ∧ present path = false) ∧
      ∀ other, (∀ id category index path, Asks matrix id category index path →
        present path = other path) → check other matrix = check present matrix := by
  obtain ⟨hcount, hcategories⟩ := counts_check present more matrix
  have hviolations := violations_check_eq_filter h matrix
  refine ⟨hcount, hcategories, ?_, ⟨(·.stays more), hviolations, ?_⟩,
    fun other => check_congr_of_asks⟩
  · rw [Report.messages, Report.messages, hviolations]
    exact List.filter_sublist.map _
  · intro v hv hstays
    obtain ⟨id, category, index, path, rfl, hmore⟩ := exists_absent_of_stays_eq_false hstays
    obtain ⟨hasks, habsent⟩ := absent_mem_check_iff.1 hv
    exact ⟨id, category, index, path, rfl, ⟨_, rfl⟩, hasks, hmore, habsent⟩

/-- Two files are looked for, and one is made during the run. -/
def threeEntries : Value :=
  .record
    [("ci_policy", .record [("required_categories", .list [.text "unit_tests"])]),
      ("requirements", .list [.record
        [("id", .text "R"),
          ("unit_tests", .list [.record [("path", .text "a")], .record [("path", .text "b")],
            .record [("path", .text "c"), ("generated_by_ci", .bool true)]])]])]

/-- With the first file there its report is gone, and the mark makes that of the third unneeded. -/
theorem check_of_more_present_threeEntries :
    (∃ stays : Violation → Bool, (check (· == "a") threeEntries).violations =
        (check (fun _ => false) threeEntries).violations.filter stays ∧
      stays (.requirement "R" (.entry "unit_tests" 0 (.absent "a"))) = false ∧
      stays (.requirement "R" (.entry "unit_tests" 1 (.absent "b"))) = true) ∧
    Asks threeEntries "R" "unit_tests" 0 "a" ∧
    check (· == "c") threeEntries = check (fun _ => false) threeEntries := by
  have hall : ∀ path : String, (fun _ => false) path = true → (path == "a") = true :=
    fun path h => Bool.noConfusion h
  obtain ⟨-, -, -, ⟨stays, hfilter, hgone⟩, hagree⟩ := check_of_more_present hall threeEntries
  have hbefore : .requirement "R" (.entry "unit_tests" 0 (.absent "a")) ∈
      (check (fun _ => false) threeEntries).violations := by
    decide +kernel
  have hafter : .requirement "R" (.entry "unit_tests" 0 (.absent "a")) ∉
      (check (· == "a") threeEntries).violations := by
    decide +kernel
  have hkept : .requirement "R" (.entry "unit_tests" 1 (.absent "b")) ∈
      (check (· == "a") threeEntries).violations := by
    decide +kernel
  have hmarked : (check (fun _ => false) threeEntries).violations.all
      (·.stays (· == "c")) = true := by
    decide +kernel
  rw [hfilter, List.mem_filter] at hafter hkept
  have hstays : stays (.requirement "R" (.entry "unit_tests" 0 (.absent "a"))) = false :=
    Bool.eq_false_iff.2 fun h => hafter ⟨hbefore, h⟩
  refine ⟨⟨stays, hfilter, hstays, hkept.2⟩, ?_, hagree _ ?_⟩
  · obtain ⟨_, _, _, _, he, -, hasks, -⟩ := hgone _ hbefore hstays
    cases he
    exact hasks
  · intro id category index path hasks
    have hmem : .requirement id (.entry category index (.absent path)) ∈
        (check (fun _ => false) threeEntries).violations :=
      absent_mem_check_iff.2 ⟨hasks, rfl⟩
    have hstays := List.all_eq_true.1 hmarked _ hmem
    simpa [Violation.stays, RequirementDefect.stays, EntryDefect.stays] using hstays

end ReleaseGate.Matrix
