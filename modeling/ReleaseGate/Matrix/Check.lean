import ReleaseGate.Json.Value
import ReleaseGate.Matrix.Violation
import ReleaseGate.Text.Blank

/-!
# Checking traceability matrices

A matrix names, for each requirement, what covers it in each category that the policy asks for. Each
path must exist unless it is marked as made during the run.
-/
namespace ReleaseGate.Matrix

open Json

structure Report where
  requirements : Nat := 0
  requiredCategories : List String := []
  violations : List Violation := []
deriving DecidableEq, Repr

def Report.isAccepted (r : Report) : Bool :=
  r.violations.isEmpty

def topLevelKeys : List String :=
  ["schema_version", "program_issue_id", "program_title", "updated_at", "ci_policy", "requirements"]

/-- Every policy must ask for these. -/
def minimumCategories : List String :=
  ["unit_tests", "e2e_scripts", "evidence_logs"]

/-- A text that is not blank. -/
def filledText? (v : Value) (key : String) : Option String := do
  let s ← (← v.field? key).asText?
  if Text.isBlank s.toList then none else some s

/-- A list that is not empty. -/
def filledList? (v : Value) (key : String) : Option (List Value) := do
  let items ← (← v.field? key).asList?
  if items.isEmpty then none else some items

def categoryName? (v : Value) : Option String := do
  let s ← v.asText?
  if Text.isBlank s.toList then none else some s

/-- The policy of a matrix, an empty one if it has none that is a record. -/
def policy (matrix : Value) : Value :=
  match matrix.field? "ci_policy" with
  | some (.record fields) => .record fields
  | _ => .record []

def policyViolations (matrix : Value) : List Violation :=
  match matrix.field? "ci_policy" with
  | none => []
  | some v => if v.isRecord then [] else [.policy]

/-- The categories that the policy asks for, the minimum if it lists none. -/
def requiredCategories (matrix : Value) : List String :=
  match filledList? (policy matrix) "required_categories" with
  | some items => items.filterMap categoryName?
  | none => minimumCategories

def categoryViolations (matrix : Value) : List Violation :=
  (match filledList? (policy matrix) "required_categories" with
    | some items => (items.filter fun v => (categoryName? v).isNone).map fun _ => .categoryName
    | none => [.categories]) ++
    (minimumCategories.filter fun name => !(requiredCategories matrix).contains name).map
      .minimumCategory

def isMarkedGenerated (entry : Value) : Bool :=
  match entry.field? "generated_by_ci" with
  | some (.bool b) => b
  | _ => false

def entryDefects (present : String → Bool) (entry : Value) : List EntryDefect :=
  if entry.isRecord then
    match filledText? entry "path" with
    | some path => if isMarkedGenerated entry || present path then [] else [.absent path]
    | none => [.path]
  else [.notRecord]

def entriesDefects (present : String → Bool) (category : String) :
    Nat → List Value → List RequirementDefect
  | _, [] => []
  | index, entry :: entries =>
    (entryDefects present entry).map (.entry category index) ++
      entriesDefects present category (index + 1) entries

def categoryDefects (present : String → Bool) (requirement : Value) (category : String) :
    List RequirementDefect :=
  match filledList? requirement category with
  | some entries => entriesDefects present category 0 entries
  | none => [.category category]

/-- What every requirement tells of itself besides its id. -/
def requirementKeys : List String :=
  ["title", "acceptance_criteria"]

def fieldDefects (requirement : Value) : List RequirementDefect :=
  (requirementKeys.filter fun key => (filledText? requirement key).isNone).map .field

/-- The id of a requirement that can be judged further. -/
def requirementId? (requirement : Value) : Option String :=
  filledText? requirement "id"

/-- The violations of a requirement, whatever the others are. -/
def requirementViolations (present : String → Bool) (categories : List String)
    (requirement : Value) : List Violation :=
  if requirement.isRecord then
    match requirementId? requirement with
    | some id =>
      (fieldDefects requirement ++ categories.flatMap (categoryDefects present requirement)).map
        (.requirement id)
    | none => [.requirementId]
  else [.requirementNotRecord]

/-- Requirements in order, each repeat of an id reported right after the requirement that repeats
it. -/
def requirementsViolations (present : String → Bool) (categories : List String) :
    List String → List Value → List Violation
  | _, [] => []
  | seen, requirement :: requirements =>
    requirementViolations present categories requirement ++
      match requirementId? requirement with
      | some id =>
        (if seen.contains id then [.duplicateId id] else []) ++
          requirementsViolations present categories (id :: seen) requirements
      | none => requirementsViolations present categories seen requirements

def requirements (matrix : Value) : List Value :=
  (filledList? matrix "requirements").getD []

def requirementsMissing (matrix : Value) : List Violation :=
  if (filledList? matrix "requirements").isSome then [] else [.requirements]

def missingKeys (matrix : Value) : List Violation :=
  (topLevelKeys.filter fun key => (matrix.field? key).isNone).map .missingKey

/-- Judges a matrix, where `present` says whether a path or pattern leads to something. -/
def check (present : String → Bool) (matrix : Value) : Report :=
  if matrix.isRecord then
    let categories := requiredCategories matrix
    { requirements := (requirements matrix).length
      requiredCategories := categories
      violations := missingKeys matrix ++ policyViolations matrix ++ categoryViolations matrix ++
        requirementsMissing matrix ++
        requirementsViolations present categories [] (requirements matrix) }
  else { violations := [.notRecord] }

def Report.messages (r : Report) : List String :=
  r.violations.map Violation.message

def Report.toValue (r : Report) : Value :=
  .record [("requirements", .nat r.requirements),
    ("required_categories", .list (r.requiredCategories.map .text)),
    ("violations", .list (r.messages.map .text))]

end ReleaseGate.Matrix
