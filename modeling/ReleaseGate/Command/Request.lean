import ReleaseGate.Files.Path
import ReleaseGate.Taxonomy.Assemble

/-!
# Requests

What a command line asks for. An option is given once, its value in the same argument behind an
equals sign or in the next one, which must not look like an option then.
-/
namespace ReleaseGate.Command

open Files

inductive Request where
  | version
  | generate (log output root : Path) (config : Option Path) (json : Bool)
  | validateTaxonomy (artifact : Path) (contract : Option Path) (root : Path) (config : Option Path)
      (json : Bool)
  | count (dimension : Taxonomy.DimensionKind) (root : Path) (config : Option Path) (json : Bool)
  | traceabilityCheck (root : Path) (matrix : Option Path) (json : Bool)
deriving DecidableEq, Repr

/-- The flags and the options of a subcommand. -/
structure Spec where
  flags : List String
  options : List String

/-- What was given of a subcommand. -/
structure Given where
  flags : List String := []
  options : List (String × String) := []
deriving DecidableEq, Repr

/-- The name of an option, and the value behind an equals sign. -/
def splitOption? (arg : String) : Option (String × Option String) :=
  match arg.toList with
  | '-' :: '-' :: body =>
    let name := String.ofList (body.takeWhile (· != '='))
    match body.dropWhile (· != '=') with
    | [] => some (name, none)
    | _ :: value => some (name, some (String.ofList value))
  | _ => none

def looksLikeOption (arg : String) : Bool :=
  arg.toList.head? == some '-' && arg != "-"

def collect (spec : Spec) (given : Given) : List String → Option Given
  | [] => some given
  | arg :: rest =>
    if arg = "--" then if rest.isEmpty then some given else none
    else
      match splitOption? arg with
      | none => none
      | some (name, attached) =>
        if spec.flags.contains name then
          if attached.isSome || given.flags.contains name then none
          else collect spec { given with flags := name :: given.flags } rest
        else if !spec.options.contains name || (given.options.lookup name).isSome then none
        else
          match attached, rest with
          | some value, rest =>
            collect spec { given with options := (name, value) :: given.options } rest
          | none, value :: rest =>
            if looksLikeOption value then none
            else collect spec { given with options := (name, value) :: given.options } rest
          | none, [] => none

namespace Given

def value? (g : Given) (name : String) : Option String :=
  g.options.lookup name

def has (g : Given) (name : String) : Bool :=
  g.flags.contains name

/-- The working folder unless another one is named. -/
def root (g : Given) : Path :=
  (g.value? "repo-root").getD "."

/-- Exactly one dimension is asked for. -/
def dimension? (g : Given) : Option Taxonomy.DimensionKind :=
  let kinds := [Taxonomy.DimensionKind.loc, .providers, .extensions]
  match kinds.filter fun kind => g.has kind.name with
  | [kind] => some kind
  | _ => none

end Given

def generateSpec : Spec := ⟨["json"], ["log", "output", "repo-root", "config"]⟩

def validateSpec : Spec := ⟨["json"], ["artifact", "contract", "repo-root", "config"]⟩

def countSpec : Spec := ⟨["loc", "providers", "extensions", "json"], ["repo-root", "config"]⟩

def traceabilitySpec : Spec := ⟨["json"], ["repo-root", "matrix"]⟩

/-- `none` if the arguments are no request. -/
def Request.ofArguments? : List String → Option Request
  | [] => none
  | name :: args =>
    if name = "--version" ∨ (splitOption? name = none ∧ "-V".isPrefixOf name) then some .version
    else if name = "generate" then do
      let g ← collect generateSpec {} args
      return .generate (← g.value? "log") (← g.value? "output") g.root (g.value? "config")
        (g.has "json")
    else if name = "validate-taxonomy" then do
      let g ← collect validateSpec {} args
      return .validateTaxonomy (← g.value? "artifact") (g.value? "contract") g.root
        (g.value? "config") (g.has "json")
    else if name = "count" then do
      let g ← collect countSpec {} args
      return .count (← g.dimension?) g.root (g.value? "config") (g.has "json")
    else if name = "traceability-check" then do
      let g ← collect traceabilitySpec {} args
      return .traceabilityCheck g.root (g.value? "matrix") (g.has "json")
    else none

end ReleaseGate.Command
