import ReleaseGate.Source.LineCount
import ReleaseGate.Providers
import ReleaseGate.Catalog
import ReleaseGate.Contract.Check
import ReleaseGate.Taxonomy.Basic
import ReleaseGate.Taxonomy.Sources

/-!
# Assembled taxonomies

The three dimensions of a code base with what was counted in each. Counts are recorded as words of
64 bits, and each metric names the command that counts its dimension again.
-/
namespace ReleaseGate

/-- What was counted. -/
structure Counts where
  loc : Source.LineCount := {}
  providers : Providers.Counts := {}
  extensions : Catalog.Counts := {}
deriving DecidableEq, Repr, Inhabited

namespace Taxonomy

def schemaName : String := "pi.qa.counting_taxonomy.v1"

inductive DimensionKind where
  | loc
  | providers
  | extensions
deriving DecidableEq, Repr

namespace DimensionKind

def name : DimensionKind → String
  | .loc => "loc"
  | .providers => "providers"
  | .extensions => "extensions"

def metricKey : DimensionKind → String
  | .loc => "rust_loc"
  | .providers => "provider_breadth"
  | .extensions => "extension_corpus"

def unit : DimensionKind → String
  | .loc => "lines"
  | .providers => "count"
  | .extensions => "count"

/-- The command that counts the dimension alone. -/
def signature (kind : DimensionKind) : String :=
  "paritygate count --" ++ kind.name

def source (s : Sources) : DimensionKind → String
  | .loc => s.sourceGlob
  | .providers => s.providerMetadata
  | .extensions => s.extensionCatalog

/-- The labels of a dimension with what was counted under each. -/
def rows (c : Counts) : DimensionKind → List (String × UInt64)
  | .loc =>
    [("loc_raw_lines", c.loc.rawLines.toUInt64), ("loc_logical_lines", c.loc.logicalLines.toUInt64)]
  | .providers => [("provider_canonical_ids", c.providers.canonicalIds.toUInt64),
      ("provider_alias_ids", c.providers.aliasIds.toUInt64),
      ("provider_families", c.providers.families.toUInt64)]
  | .extensions => [("extension_official_subset", c.extensions.official.toUInt64),
      ("extension_community_subset", c.extensions.community.toUInt64),
      ("extension_full_corpus", c.extensions.total.toUInt64)]

def dimension (kind : DimensionKind) (c : Counts) (s : Sources) : Dimension where
  comparisonMode := .sideBySide
  metrics := (kind.rows c).map fun row =>
    { key := kind.metricKey, label := row.1, value := row.2, unit := kind.unit
      provenance := ⟨kind.source s, kind.signature⟩ }

end DimensionKind

def assemble (c : Counts) (s : Sources) : Taxonomy where
  schema := schemaName
  contractRef := s.contract
  dimensions := .ofList ([DimensionKind.loc, .providers, .extensions].map fun kind =>
    (kind.name, kind.dimension c s))

/-- What a contract misses in a taxonomy. -/
def violations (t : Taxonomy) (contract : Contract) : List Contract.Violation :=
  contract.taxonomyViolations t.toValue

end Taxonomy

end ReleaseGate
