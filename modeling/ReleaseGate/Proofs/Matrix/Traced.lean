import Mathlib.Logic.Basic
import ReleaseGate.Matrix.Check
import ReleaseGate.Proofs.Json.Value

/-!
# Matrices in which everything is traced

What the traceability check demands, said of the matrix alone: every requirement is described, and
each category of the policy is covered by paths that lead to something. The check finds nothing
exactly in matrices of which that holds.
-/
namespace ReleaseGate.Matrix

open Json

/-- A field holds a text that is not all white space. -/
def Tells (v : Value) (key s : String) : Prop :=
  v.field? key = some (.text s) ∧ ∃ ch ∈ s.toList, Text.isSpace ch = false

/-- The path of an entry leads to something, or what it leads to is made during the run. -/
structure EntryTraces (present : String → Bool) (entry : Value) : Prop where
  record : ∃ fields, entry = .record fields
  path : ∃ path, Tells entry "path" path ∧
    (entry.field? "generated_by_ci" = some (.bool true) ∨ present path = true)

structure RequirementTraces (present : String → Bool) (categories : List String)
    (requirement : Value) : Prop where
  record : ∃ fields, requirement = .record fields
  id : ∃ id, Tells requirement "id" id
  title : ∃ title, Tells requirement "title" title
  criteria : ∃ criteria, Tells requirement "acceptance_criteria" criteria
  covered : ∀ category ∈ categories, ∃ entries,
    requirement.field? category = some (.list entries) ∧ entries ≠ [] ∧
      ∀ entry ∈ entries, EntryTraces present entry

/-- The policy of a matrix lists the categories. -/
structure PolicyLists (matrix : Value) (categories : List String) : Prop where
  listed : ∃ policy, matrix.field? "ci_policy" = some (.record policy) ∧
    policy.lookup "required_categories" = some (.list (categories.map .text))
  nonempty : categories ≠ []
  visible : ∀ category ∈ categories, ∃ ch ∈ category.toList, Text.isSpace ch = false
  minimum : ∀ category ∈ ["unit_tests", "e2e_scripts", "evidence_logs"], category ∈ categories

structure Traces (present : String → Bool) (categories : List String) (requirements : List Value)
    (matrix : Value) : Prop where
  record : ∃ fields, matrix = .record fields
  keys : ∀ key ∈ ["schema_version", "program_issue_id", "program_title", "updated_at", "ci_policy",
    "requirements"], ∃ v, matrix.field? key = some v
  policy : PolicyLists matrix categories
  listed : matrix.field? "requirements" = some (.list requirements)
  nonempty : requirements ≠ []
  each : ∀ requirement ∈ requirements, RequirementTraces present categories requirement
  distinct : requirements.Pairwise fun a b => a.field? "id" ≠ b.field? "id"

variable {present : String → Bool} {categories : List String} {requirement matrix : Value}

theorem filledList?_eq_some_iff {v : Value} {key : String} {items : List Value} :
    filledList? v key = some items ↔ v.field? key = some (.list items) ∧ items ≠ [] := by
  simp only [filledList?, Option.bind_eq_bind, Option.bind_eq_some_iff, Value.asList?_eq_some_iff]
  constructor
  · rintro ⟨w, hw, found, rfl, hfound⟩
    split at hfound
    case isTrue => simp at hfound
    case isFalse hne =>
      obtain rfl := Option.some.inj hfound
      exact ⟨hw, by simpa using hne⟩
  · rintro ⟨hfield, hne⟩
    exact ⟨_, hfield, items, rfl, by simp [hne]⟩

theorem categoryName?_eq_some_iff {v : Value} {name : String} :
    categoryName? v = some name ↔
      v = .text name ∧ ∃ ch ∈ name.toList, Text.isSpace ch = false := by
  simp only [categoryName?, Option.bind_eq_bind, Option.bind_eq_some_iff,
    Value.asText?_eq_some_iff]
  constructor
  · rintro ⟨t, rfl, ht⟩
    split at ht
    case isTrue => simp at ht
    case isFalse hb =>
      obtain rfl := Option.some.inj ht
      exact ⟨rfl, Text.isBlank_eq_false_iff.1 (Bool.eq_false_iff.2 hb)⟩
  · rintro ⟨rfl, hvisible⟩
    exact ⟨name, rfl, by rw [Text.isBlank_eq_false_iff.2 hvisible]; rfl⟩

/-- A field is filled by what could name a category. -/
theorem filledText?_eq (v : Value) (key : String) :
    filledText? v key = (v.field? key).bind categoryName? := rfl

theorem filledText?_eq_some_iff {v : Value} {key s : String} :
    filledText? v key = some s ↔ Tells v key s := by
  rw [filledText?_eq, Option.bind_eq_some_iff]
  simp only [categoryName?_eq_some_iff]
  constructor
  · rintro ⟨w, hfield, rfl, hvisible⟩
    exact ⟨hfield, hvisible⟩
  · rintro ⟨hfield, hvisible⟩
    exact ⟨_, hfield, rfl, hvisible⟩

theorem isMarkedGenerated_iff {entry : Value} :
    isMarkedGenerated entry ↔ entry.field? "generated_by_ci" = some (.bool true) := by
  unfold isMarkedGenerated
  split
  case h_1 b hb => simp [hb]
  case h_2 hno =>
    constructor
    · intro h
      simp at h
    · intro h
      exact absurd h (hno true)

theorem entryDefects_eq_nil_iff {entry : Value} :
    entryDefects present entry = [] ↔ EntryTraces present entry := by
  unfold entryDefects
  by_cases hrecord : entry.isRecord
  · rw [if_pos hrecord]
    cases hpath : filledText? entry "path" with
    | none =>
      simp only [List.cons_ne_nil, false_iff]
      intro h
      obtain ⟨path, hpath', -⟩ := h.path
      simp [filledText?_eq_some_iff.2 hpath'] at hpath
    | some path =>
      have hleads : (isMarkedGenerated entry || present path) ↔
          entry.field? "generated_by_ci" = some (.bool true) ∨ present path = true := by
        rw [Bool.or_eq_true, isMarkedGenerated_iff]
      simp only [ite_eq_left_iff, List.cons_ne_nil, imp_false, not_not, hleads]
      constructor
      · intro h
        exact ⟨Value.isRecord_iff.1 hrecord, path, filledText?_eq_some_iff.1 hpath, h⟩
      · intro h
        obtain ⟨path', hpath', hpresent⟩ := h.path
        obtain rfl : path = path' := by simpa [filledText?_eq_some_iff.2 hpath'] using hpath.symm
        exact hpresent
  · rw [if_neg hrecord]
    simp only [List.cons_ne_nil, false_iff]
    exact fun h => hrecord (Value.isRecord_iff.2 h.record)

theorem entriesDefects_eq_nil_iff {category : String} {index : Nat} {entries : List Value} :
    entriesDefects present category index entries = [] ↔
      ∀ entry ∈ entries, EntryTraces present entry := by
  induction entries generalizing index with
  | nil => simp [entriesDefects]
  | cons entry entries ih =>
    rw [entriesDefects, List.append_eq_nil_iff, List.map_eq_nil_iff, entryDefects_eq_nil_iff, ih,
      List.forall_mem_cons]

theorem categoryDefects_eq_nil_iff {category : String} :
    categoryDefects present requirement category = [] ↔ ∃ entries,
      requirement.field? category = some (.list entries) ∧ entries ≠ [] ∧
        ∀ entry ∈ entries, EntryTraces present entry := by
  unfold categoryDefects
  cases hlist : filledList? requirement category with
  | none =>
    simp only [List.cons_ne_nil, false_iff]
    rintro ⟨entries, hfield, hne, -⟩
    simp [filledList?_eq_some_iff.2 ⟨hfield, hne⟩] at hlist
  | some entries =>
    obtain ⟨hfield, hne⟩ := filledList?_eq_some_iff.1 hlist
    simp only [entriesDefects_eq_nil_iff]
    constructor
    · intro h
      exact ⟨entries, hfield, hne, h⟩
    · rintro ⟨found, hfound, -, h⟩
      obtain rfl : entries = found := by simpa [hfield] using hfound
      exact h

theorem isNone_filledText?_iff {v : Value} {key : String} :
    (filledText? v key).isNone = true ↔ ¬ ∃ s, Tells v key s := by
  simp only [Option.isNone_iff_eq_none, Option.eq_none_iff_forall_ne_some, ne_eq,
    filledText?_eq_some_iff, not_exists]

theorem fieldDefects_eq_nil_iff :
    fieldDefects requirement = [] ↔
      (∃ title, Tells requirement "title" title) ∧
        ∃ criteria, Tells requirement "acceptance_criteria" criteria := by
  simp only [fieldDefects, List.map_eq_nil_iff, List.filter_eq_nil_iff, isNone_filledText?_iff,
    not_not, requirementKeys, List.forall_mem_cons, List.not_mem_nil, false_implies, implies_true,
    and_true]

theorem requirementViolations_eq_nil_iff :
    requirementViolations present categories requirement = [] ↔
      RequirementTraces present categories requirement := by
  unfold requirementViolations
  by_cases hrecord : requirement.isRecord
  · rw [if_pos hrecord]
    cases hid : requirementId? requirement with
    | none =>
      simp only [List.cons_ne_nil, false_iff]
      intro h
      obtain ⟨id, hid'⟩ := h.id
      simp [requirementId?, filledText?_eq_some_iff.2 hid'] at hid
    | some id =>
      simp only [List.map_eq_nil_iff, List.append_eq_nil_iff, fieldDefects_eq_nil_iff,
        List.flatMap_eq_nil_iff, categoryDefects_eq_nil_iff]
      constructor
      · rintro ⟨⟨htitle, hcriteria⟩, hcovered⟩
        exact ⟨Value.isRecord_iff.1 hrecord, ⟨id, filledText?_eq_some_iff.1 hid⟩, htitle, hcriteria,
          hcovered⟩
      · intro h
        exact ⟨⟨h.title, h.criteria⟩, h.covered⟩
  · rw [if_neg hrecord]
    simp only [List.cons_ne_nil, false_iff]
    exact fun h => hrecord (Value.isRecord_iff.2 h.record)

/-- Every requirement that is traced has an id. It has been seen if the field of one before it holds
the same text. -/
theorem requirementsViolations_eq_nil_iff {seen : List String} {requirements : List Value} :
    requirementsViolations present categories seen requirements = [] ↔
      (∀ r ∈ requirements, RequirementTraces present categories r) ∧
        (∀ r ∈ requirements, ∀ id ∈ seen, r.field? "id" ≠ some (.text id)) ∧
        requirements.Pairwise fun a b => a.field? "id" ≠ b.field? "id" := by
  induction requirements generalizing seen with
  | nil => simp [requirementsViolations]
  | cons r rs ih =>
    rw [requirementsViolations, List.append_eq_nil_iff, requirementViolations_eq_nil_iff,
      List.forall_mem_cons, List.forall_mem_cons, List.pairwise_cons]
    by_cases hr : RequirementTraces present categories r
    case neg => simp [hr]
    obtain ⟨id, hid⟩ := hr.id
    have hfound : requirementId? r = some id := filledText?_eq_some_iff.2 hid
    have hseen : (∀ id' ∈ seen, r.field? "id" ≠ some (.text id')) ↔ id ∉ seen := by
      simp only [hid.1, ne_eq, Option.some.injEq, Value.text.injEq, List.forall_mem_ne]
    have hlater : (∀ r' ∈ rs, ∀ id' ∈ id :: seen, r'.field? "id" ≠ some (.text id')) ↔
        (∀ r' ∈ rs, r.field? "id" ≠ r'.field? "id") ∧
          ∀ r' ∈ rs, ∀ id' ∈ seen, r'.field? "id" ≠ some (.text id') := by
      rw [hid.1, ← forall₂_and]
      refine forall₂_congr fun r' _ => ?_
      rw [List.forall_mem_cons]
      exact and_congr_left fun _ => ne_comm
    simp only [hfound, List.append_eq_nil_iff, ih, hseen, hlater, hr, true_and]
    simp only [ite_eq_right_iff, List.cons_ne_nil, imp_false, List.contains_iff_mem]
    constructor
    · rintro ⟨hid, heach, ⟨hfirst, hrest⟩, hpairs⟩
      exact ⟨heach, ⟨hid, hrest⟩, hfirst, hpairs⟩
    · rintro ⟨heach, ⟨hid, hrest⟩, hfirst, hpairs⟩
      exact ⟨hid, heach, ⟨hfirst, hrest⟩, hpairs⟩

/-- Of two requirements with one id the second is reported. -/
example :
    let entries : Value := .list [.record [("path", .text "a"), ("generated_by_ci", .bool true)]]
    let requirement : Value := .record [("id", .text "R"), ("title", .text "T"),
      ("acceptance_criteria", .text "C"), ("unit_tests", entries), ("e2e_scripts", entries)]
    requirementsViolations (fun _ => false) ["unit_tests", "e2e_scripts"] []
      [requirement, requirement] = [.duplicateId "R"] := by
  decide +kernel

theorem PolicyLists.filledList? (h : PolicyLists matrix categories) :
    filledList? (policy matrix) "required_categories" = some (categories.map .text) := by
  obtain ⟨fields, hpolicy, hlookup⟩ := h.listed
  rw [policy, hpolicy]
  exact filledList?_eq_some_iff.2 ⟨hlookup, by simp [h.nonempty]⟩

theorem filterMap_categoryName?_map
    (h : ∀ category ∈ categories, ∃ ch ∈ category.toList, Text.isSpace ch = false) :
    (categories.map Value.text).filterMap categoryName? = categories := by
  induction categories with
  | nil => rfl
  | cons category categories ih =>
    obtain ⟨hvisible, hrest⟩ := List.forall_mem_cons.1 h
    have hname : categoryName? (.text category) = some category :=
      categoryName?_eq_some_iff.2 ⟨rfl, hvisible⟩
    rw [List.map_cons, List.filterMap_cons_some hname, ih hrest]

/-- What the policy of a matrix lists is what is looked for in its requirements. -/
theorem PolicyLists.requiredCategories_eq (h : PolicyLists matrix categories) :
    requiredCategories matrix = categories := by
  rw [requiredCategories, h.filledList?]
  exact filterMap_categoryName?_map h.visible

theorem missingMinimum_eq_nil_iff :
    (minimumCategories.filter fun name => !(requiredCategories matrix).contains name) = [] ↔
      ∀ category ∈ ["unit_tests", "e2e_scripts", "evidence_logs"],
        category ∈ requiredCategories matrix := by
  simp only [List.filter_eq_nil_iff, Bool.not_eq_true', Bool.not_eq_false, List.contains_iff_mem,
    minimumCategories]

/-- Where every item is a name, the items are the names. -/
theorem map_filterMap_categoryName? {items : List Value}
    (h : (items.filter fun v => (categoryName? v).isNone) = []) :
    (items.filterMap categoryName?).map Value.text = items := by
  induction items with
  | nil => rfl
  | cons v items ih =>
    cases hv : categoryName? v with
    | none => simp [hv] at h
    | some name =>
      obtain ⟨rfl, -⟩ := categoryName?_eq_some_iff.1 hv
      rw [List.filter_cons_of_neg (by simp [hv])] at h
      rw [List.filterMap_cons_some hv, List.map_cons, ih h]

/-- A policy that is not a record lists nothing either. -/
theorem categoryViolations_eq_nil_iff :
    categoryViolations matrix = [] ↔ PolicyLists matrix (requiredCategories matrix) := by
  rw [categoryViolations, List.append_eq_nil_iff, List.map_eq_nil_iff, missingMinimum_eq_nil_iff]
  constructor
  · rintro ⟨hitems, hminimum⟩
    cases hlist : filledList? (policy matrix) "required_categories" with
    | none => simp [hlist] at hitems
    | some items =>
      simp only [hlist, List.map_eq_nil_iff] at hitems
      have hcategories : requiredCategories matrix = items.filterMap categoryName? := by
        rw [requiredCategories, hlist]
      have hnames := map_filterMap_categoryName? hitems
      obtain ⟨hfield, hne⟩ := filledList?_eq_some_iff.1 hlist
      rw [hcategories] at hminimum ⊢
      refine ⟨?_, ?_, fun category hc => ?_, hminimum⟩
      · rw [hnames]
        unfold policy at hfield
        split at hfield
        case h_1 fields hpolicy => exact ⟨fields, hpolicy, hfield⟩
        case h_2 => simp [Value.field?, Value.asRecord?] at hfield
      · intro hnil
        rw [hnil] at hnames
        exact hne hnames.symm
      · obtain ⟨v, -, hv⟩ := List.mem_filterMap.1 hc
        exact (categoryName?_eq_some_iff.1 hv).2
  · intro h
    refine ⟨?_, h.minimum⟩
    simp only [h.filledList?, List.map_eq_nil_iff, List.filter_eq_nil_iff, List.forall_mem_map]
    intro category hc
    simp [categoryName?_eq_some_iff.2 ⟨rfl, h.visible category hc⟩]

theorem policyViolations_of_lists (h : PolicyLists matrix categories) :
    policyViolations matrix = [] := by
  obtain ⟨fields, hpolicy, -⟩ := h.listed
  rw [policyViolations, hpolicy]
  rfl

theorem missingKeys_eq_nil_iff :
    missingKeys matrix = [] ↔ ∀ key ∈ topLevelKeys, ∃ v, matrix.field? key = some v := by
  simp only [missingKeys, List.map_eq_nil_iff, List.filter_eq_nil_iff, Option.isNone_iff_eq_none,
    ← ne_eq, Option.ne_none_iff_exists']

theorem check_of_traces {requirements : List Value}
    (h : Traces present categories requirements matrix) :
    check present matrix = ⟨requirements.length, categories, []⟩ := by
  have hrecord : matrix.isRecord = true := Value.isRecord_iff.2 h.record
  have hcategories := h.policy.requiredCategories_eq
  have hlist : filledList? matrix "requirements" = some requirements :=
    filledList?_eq_some_iff.2 ⟨h.listed, h.nonempty⟩
  have hkeys : missingKeys matrix = [] := missingKeys_eq_nil_iff.2 h.keys
  have hpolicy : categoryViolations matrix = [] :=
    categoryViolations_eq_nil_iff.2 (hcategories.symm ▸ h.policy)
  have heach : requirementsViolations present categories [] requirements = [] :=
    requirementsViolations_eq_nil_iff.2 ⟨h.each, by simp, h.distinct⟩
  rw [check, if_pos hrecord]
  simp only [Matrix.requirements, requirementsMissing, hlist, hcategories, hkeys,
    policyViolations_of_lists h.policy, hpolicy, Option.getD_some, Option.isSome_some, heach]
  rfl

theorem exists_traces_of_violations (h : (check present matrix).violations = []) :
    ∃ categories requirements, Traces present categories requirements matrix := by
  rw [check] at h
  split at h
  case isFalse => simp at h
  case isTrue hrecord =>
    simp only [List.append_eq_nil_iff, missingKeys_eq_nil_iff, categoryViolations_eq_nil_iff,
      requirementsViolations_eq_nil_iff] at h
    obtain ⟨⟨⟨⟨hkeys, -⟩, hpolicy⟩, hmissing⟩, heach, -, hdistinct⟩ := h
    cases hlist : filledList? matrix "requirements" with
    | none => simp [requirementsMissing, hlist] at hmissing
    | some found =>
      obtain ⟨hlisted, hne⟩ := filledList?_eq_some_iff.1 hlist
      rw [requirements, hlist, Option.getD_some] at heach hdistinct
      exact ⟨requiredCategories matrix, found, Value.isRecord_iff.1 hrecord, hkeys, hpolicy,
        hlisted, hne, heach, hdistinct⟩

/-- The check of a matrix finds nothing exactly if the matrix has all its parts, its policy lists
the categories that every policy must list, and each of its requirements is described and covered
in each category. The report on such a matrix counts its requirements and names its categories. -/
theorem isAccepted_check_iff (present : String → Bool) (matrix : Value) :
    ((check present matrix).isAccepted ↔
        ∃ categories requirements, Traces present categories requirements matrix) ∧
      ∀ categories requirements, Traces present categories requirements matrix →
        (check present matrix).requirements = requirements.length ∧
          (check present matrix).requiredCategories = categories := by
  rw [Report.isAccepted, List.isEmpty_iff]
  constructor
  · constructor
    · exact exists_traces_of_violations
    · rintro ⟨categories, requirements, h⟩
      rw [check_of_traces h]
  · intro categories requirements h
    rw [check_of_traces h]
    exact ⟨rfl, rfl⟩

/-- One requirement, covered by what the run makes and by a file. -/
def tracedMatrix : Value :=
  .record
    [("schema_version", .nat 1), ("program_issue_id", .null), ("program_title", .text ""),
      ("updated_at", .text ""),
      ("ci_policy", .record [("required_categories",
        .list [.text "unit_tests", .text "e2e_scripts", .text "evidence_logs", .text "fuzz"])]),
      ("requirements", .list [.record
        [("id", .text "R"), ("title", .text "T"), ("acceptance_criteria", .text "C"),
          ("unit_tests", .list [.record [("path", .text "a")]]),
          ("e2e_scripts", .list [.record [("path", .text "a")]]),
          ("evidence_logs",
            .list [.record [("path", .text "b"), ("generated_by_ci", .bool true)]]),
          ("fuzz", .list [.record [("path", .text "a"), ("generated_by_ci", .text "")]])]])]

theorem isAccepted_check_iff_tracedMatrix :
    ∃ requirements,
      Traces (· == "a") ["unit_tests", "e2e_scripts", "evidence_logs", "fuzz"] requirements
        tracedMatrix ∧ requirements.length = 1 ∧
      ¬ ∃ categories requirements, Traces (· == "b") categories requirements tracedMatrix := by
  have hreport : check (· == "a") tracedMatrix =
      ⟨1, ["unit_tests", "e2e_scripts", "evidence_logs", "fuzz"], []⟩ := by
    decide +kernel
  obtain ⟨hiff, hcounts⟩ := isAccepted_check_iff (· == "a") tracedMatrix
  rw [hreport] at hiff hcounts
  obtain ⟨categories, requirements, htraces⟩ := hiff.1 rfl
  obtain ⟨hlength, rfl⟩ := hcounts categories requirements htraces
  refine ⟨requirements, htraces, hlength.symm, fun htraced => ?_⟩
  have hrejected : (check (· == "b") tracedMatrix).isAccepted = false := by decide +kernel
  have haccepted := (isAccepted_check_iff (· == "b") tracedMatrix).1.2 htraced
  simp [hrejected] at haccepted

end ReleaseGate.Matrix
