import ReleaseGate.Command.Request
import ReleaseGate.Config.Load
import ReleaseGate.Matrix.Load

/-!
# Inputs of requests

The paths whose content a request may ask for. Of all other paths it asks at most whether they
exist.
-/
namespace ReleaseGate.Command

open Files

namespace Request

/-- The root of the code base that a request is about, and the configuration that it names. -/
def settings? : Request → Option (Path × Option Path)
  | .version => none
  | .generate _ _ root config _ => some (root, config)
  | .validateTaxonomy _ _ root config _ => some (root, config)
  | .count _ root config _ => some (root, config)
  | .traceabilityCheck _ _ _ => none

/-- The paths that the arguments name or leave to a default. -/
def namedInputs : Request → List Path
  | .version => []
  | .generate log _ root config _ => [log, config.getD (root.join Config.fileName)]
  | .validateTaxonomy artifact contract root config _ =>
    [artifact, config.getD (root.join Config.fileName)] ++ contract.toList
  | .count _ root config _ => [config.getD (root.join Config.fileName)]
  | .traceabilityCheck root matrix _ => [matrix.getD (root.join Matrix.defaultPath)]

/-- The paths that the configuration names. -/
def configuredInputs (fs : FileSystem) (request : Request) : List Path :=
  match request.settings? with
  | none => []
  | some (root, config) =>
    match Config.load fs root config with
    | .error _ => []
    | .ok c =>
      [c.sources.srcRootPath root, c.sources.providerMetadataPath root,
        c.sources.extensionCatalogPath root, c.sources.contractPath root]

/-- The folders in which paths are looked up, and the place of the output. -/
def surroundings : Request → List Path
  | .version => []
  | .generate _ output root _ _ => [root, output]
  | .validateTaxonomy _ _ root _ _ => [root]
  | .count _ root _ _ => [root]
  | .traceabilityCheck root _ _ => [root]

end Request

end ReleaseGate.Command
