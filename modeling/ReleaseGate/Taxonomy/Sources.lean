import ReleaseGate.Files.Path
import ReleaseGate.Json.Value

/-!
# Sources

Where a taxonomy gets its counts from, relative to the root of the code base.
-/
namespace ReleaseGate

open Files

structure Sources where
  srcRoot : String := "src"
  sourceExtension : String := "rs"
  providerMetadata : String := "src/provider_metadata.rs"
  extensionCatalog : String := "docs/extension-master-catalog.json"
  contract : String := "docs/counting-taxonomy-contract.json"
  officialTier : String := "official-pi-mono"
  communityTier : String := "community"
deriving DecidableEq, Repr, Inhabited

namespace Sources

def trimSlashes (s : List Char) : List Char :=
  (s.reverse.dropWhile (· == '/')).reverse

/-- Names the counted files, as in `src/**/*.rs`. -/
def sourceGlob (s : Sources) : String :=
  String.ofList (trimSlashes s.srcRoot.toList) ++ "/**/*." ++ s.sourceExtension

def srcRootPath (s : Sources) (root : Path) : Path :=
  root.join s.srcRoot

def providerMetadataPath (s : Sources) (root : Path) : Path :=
  root.join s.providerMetadata

def extensionCatalogPath (s : Sources) (root : Path) : Path :=
  root.join s.extensionCatalog

def contractPath (s : Sources) (root : Path) : Path :=
  root.join s.contract

/-- The settings by name, in their order. -/
def settings (s : Sources) : List (String × String) :=
  [("src_root", s.srcRoot), ("source_extension", s.sourceExtension),
    ("provider_metadata", s.providerMetadata), ("extension_catalog", s.extensionCatalog),
    ("contract", s.contract), ("official_tier", s.officialTier),
    ("community_tier", s.communityTier)]

def toValue (s : Sources) : Json.Value :=
  .record (s.settings.map fun e => (e.1, .text e.2))

end Sources

end ReleaseGate
