import ReleaseGate.Taxonomy.Sources
import ReleaseGate.Text.Blank
import ReleaseGate.Toml.Reader

/-!
# Gate configuration

Which suites a complete run must report, in reporting order, and where the taxonomy gets its counts
from. Every setting may be left out, and no other may be given.
-/
namespace ReleaseGate

structure Config where
  expected : List String :=
    ["json_mode_parity", "cross_surface_parity", "config_precedence", "vcr_parity_validation",
      "e2e_cross_provider_parity"]
  sources : Sources := {}
deriving DecidableEq, Repr, Inhabited

namespace Config

open Toml

/-- A setting of a record type: how its value changes a record. -/
structure Setting (α : Type) where
  name : String
  set : Value → α → Option α

/-- A record written as a table, or as a list of its settings in order. -/
def readRecord (settings : List (Setting α)) (blank : α) : Value → Option α
  | .table _ entries =>
    entries.foldlM (fun a e => (settings.find? (·.name == e.1)).bind (·.set e.2 a)) blank
  | .list _ items => (settings.zip items).foldlM (fun a e => e.1.set e.2 a) blank
  | _ => none

def asText? : Value → Option String
  | .text s => some s
  | _ => none

def asTexts? : Value → Option (List String)
  | .list _ items => items.mapM asText?
  | _ => none

def textSetting (name : String) (set : String → α → α) : Setting α :=
  ⟨name, fun v a => (asText? v).map (set · a)⟩

def suiteSettings : List (Setting Config) :=
  [⟨"expected", fun v c => (asTexts? v).map fun expected => { c with expected }⟩]

def sourceSettings : List (Setting Sources) :=
  [textSetting "src_root" fun srcRoot s => { s with srcRoot },
    textSetting "source_extension" fun sourceExtension s => { s with sourceExtension },
    textSetting "provider_metadata" fun providerMetadata s => { s with providerMetadata },
    textSetting "extension_catalog" fun extensionCatalog s => { s with extensionCatalog },
    textSetting "contract" fun contract s => { s with contract },
    textSetting "official_tier" fun officialTier s => { s with officialTier },
    textSetting "community_tier" fun communityTier s => { s with communityTier }]

def sections : List (Setting Config) :=
  [⟨"suites", fun v c => readRecord suiteSettings c v⟩,
    ⟨"taxonomy", fun v c =>
      (readRecord sourceSettings c.sources v).map fun sources => { c with sources }⟩]

/-- The configuration in a settings document. -/
def read? (text : List Char) : Option Config := do
  readRecord sections {} (.table .header (← Toml.read text))

/-- What a configuration that can be read may get wrong. -/
inductive Defect where
  | noSuite
  | blankSuite
  | duplicateSuite (name : String)
deriving DecidableEq, Repr

/-- The first defect in the order of the suites. -/
def suiteDefect? (seen : List String) : List String → Option Defect
  | [] => none
  | name :: names =>
    if Text.isBlank name.toList then some .blankSuite
    else if seen.contains name then some (.duplicateSuite name)
    else suiteDefect? (name :: seen) names

/-- A gate that expects no suite would let any log pass. -/
def defect? (c : Config) : Option Defect :=
  if c.expected.isEmpty then some .noSuite else suiteDefect? [] c.expected

def toValue (c : Config) : Json.Value :=
  .record [("suites", .record [("expected", .list (c.expected.map .text))]),
    ("taxonomy", c.sources.toValue)]

end Config

end ReleaseGate
