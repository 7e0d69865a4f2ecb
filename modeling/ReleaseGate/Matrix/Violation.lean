import ReleaseGate.Json.Number
import ReleaseGate.Text.Quoted

/-!
# Matrix violations

What a traceability matrix can lack, and how each lack is reported.
-/
namespace ReleaseGate.Matrix

/-- What one piece of coverage lacks. -/
inductive EntryDefect where
  | notRecord
  | path
  | absent (path : String)
deriving DecidableEq, Repr

/-- What a requirement with an id lacks. -/
inductive RequirementDefect where
  | field (key : String)
  | category (name : String)
  | entry (category : String) (index : Nat) (defect : EntryDefect)
deriving DecidableEq, Repr

inductive Violation where
  | notRecord
  | missingKey (key : String)
  | policy
  | categoryName
  | categories
  | minimumCategory (name : String)
  | requirements
  | requirementNotRecord
  | requirementId
  | requirement (id : String) (defect : RequirementDefect)
  | duplicateId (id : String)
deriving DecidableEq, Repr

def EntryDefect.message (location : String) : EntryDefect → String
  | .notRecord => location ++ " must be an object"
  | .path => location ++ ".path must be a non-empty string"
  | .absent named =>
    location ++ ".path points to missing file/glob: " ++ Text.quoted named ++
      " (set generated_by_ci=true for CI-produced artifacts)"

def RequirementDefect.message (id : String) : RequirementDefect → String
  | .field key => id ++ "." ++ key ++ " must be a non-empty string"
  | .category c => id ++ "." ++ c ++ " must be a non-empty array (CI policy requirement)"
  | .entry c index defect =>
    defect.message (id ++ "." ++ c ++ "[" ++ String.ofList (Json.natDigits index) ++ "]")

def Violation.message : Violation → String
  | .notRecord => "matrix root must be a JSON object"
  | .missingKey key => "missing top-level key: " ++ key
  | .policy => "ci_policy must be an object"
  | .categoryName => "ci_policy.required_categories entries must be non-empty strings"
  | .categories => "ci_policy.required_categories must be a non-empty array"
  | .minimumCategory name => "ci_policy.required_categories must include " ++ Text.quoted name
  | .requirements => "requirements must be a non-empty array"
  | .requirementNotRecord => "requirements[] entries must be objects"
  | .requirementId => "requirements[].id must be a non-empty string"
  | .requirement id defect => defect.message id
  | .duplicateId id => "duplicate requirement id: " ++ id

end ReleaseGate.Matrix
