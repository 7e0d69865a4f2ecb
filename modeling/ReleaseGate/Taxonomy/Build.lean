import ReleaseGate.Source.Tree
import ReleaseGate.Taxonomy.Assemble

/-!
# Building taxonomies

The counts come from the files of a code base, and the taxonomy made of them must meet the contract
that lies among them. The first input that is missing, cannot be read or does not decode ends the
build.
-/
namespace ReleaseGate

open Files

/-- What a build reads. -/
inductive Taxonomy.Input where
  | sourceRoot
  | providerMetadata
  | extensionCatalog
  | contract
deriving DecidableEq, Repr

def Taxonomy.Input.name : Taxonomy.Input → String
  | .sourceRoot => "source root"
  | .providerMetadata => "provider metadata"
  | .extensionCatalog => "extension catalog"
  | .contract => "counting taxonomy contract"

inductive Taxonomy.BuildError where
  | missing (input : Taxonomy.Input) (path : Path)
  | unlisted (root folder : Path) (why : Refusal)
  | unread (path : Path) (why : Refusal)
  | undecodable (path : Path) (fault : Json.Fault)
  | rejected (violations : List Contract.Violation)

def Json.Fault.message : Json.Fault → String
  | .malformed => "not a document"
  | .ended => "the document ends too early"
  | .mistyped => "the document does not fit"

def Json.undecodableMessage (path : Path) (fault : Json.Fault) : String :=
  "invalid json at " ++ path ++ ": " ++ fault.message

namespace Taxonomy

def BuildError.reports : BuildError → List String
  | .rejected violations => violations.map (·.message Contract.taxonomyKey)
  | _ => []

def BuildError.message (e : BuildError) : String :=
  match e with
  | .missing input path => input.name ++ " not found: " ++ path
  | .unlisted root folder why =>
    "failed to walk source tree " ++ root ++ ": IO error for operation on " ++ folder ++ ": " ++
      why.message
  | .unread path why => unreadMessage path why
  | .undecodable path fault => Json.undecodableMessage path fault
  | .rejected _ => "counting taxonomy validation failed: " ++ "; ".intercalate e.reports

end Taxonomy

open Taxonomy

def Source.countFiles (fs : FileSystem) (root : Path) (extension : String) :
    Except BuildError Source.LineCount :=
  match fs.item? root with
  | some (.folder entries) =>
    match unlistedFolder? fs root entries, unreadFile? fs root extension entries with
    | some (folder, why), _ => .error (.unlisted root (root.below folder) why)
    | none, some (file, why) => .error (.unread (root.below file) why)
    | none, none => .ok (.ofFolder extension entries)
  | _ => .error (.missing .sourceRoot root)

/-- What is amiss with an input of which nothing is read. -/
def Taxonomy.lost (fs : FileSystem) (input : Input) (path : Path) : BuildError :=
  if fs.isFile path then .unread path .denied else .missing input path

def Providers.countFile (fs : FileSystem) (path : Path) : Except BuildError Providers.Counts :=
  match fs.content? path with
  | some content => .ok (.ofText (Text.Utf8.decodeLossy content))
  | none => .error (lost fs .providerMetadata path)

def Catalog.countFile (fs : FileSystem) (path : Path) (official community : String) :
    Except BuildError Catalog.Counts :=
  match fs.content? path with
  | some content =>
    match Catalog.read content with
    | .ok catalog => .ok (catalog.count official community)
    | .error fault => .error (.undecodable path fault)
  | none => .error (lost fs .extensionCatalog path)

/-- A contract with the bytes that it was read from. -/
def Contract.load (fs : FileSystem) (path : Path) : Except BuildError (Contract × List UInt8) :=
  match fs.content? path with
  | some content =>
    match Contract.read content with
    | .ok contract => .ok (contract, content)
    | .error fault => .error (.undecodable path fault)
  | none => .error (lost fs .contract path)

namespace Sources

def countLines (s : Sources) (fs : FileSystem) (root : Path) : Except BuildError Source.LineCount :=
  Source.countFiles fs (s.srcRootPath root) s.sourceExtension

def countProviders (s : Sources) (fs : FileSystem) (root : Path) :
    Except BuildError Providers.Counts :=
  Providers.countFile fs (s.providerMetadataPath root)

def countExtensions (s : Sources) (fs : FileSystem) (root : Path) :
    Except BuildError Catalog.Counts :=
  Catalog.countFile fs (s.extensionCatalogPath root) s.officialTier s.communityTier

def collect (s : Sources) (fs : FileSystem) (root : Path) : Except BuildError Counts := do
  let loc ← s.countLines fs root
  let providers ← s.countProviders fs root
  let extensions ← s.countExtensions fs root
  return { loc, providers, extensions }

end Sources

/-- A taxonomy that fails its contract is never built. -/
def Taxonomy.build (fs : FileSystem) (root : Path) (s : Sources) : Except BuildError Taxonomy := do
  let counts ← s.collect fs root
  let taxonomy := assemble counts s
  let (contract, _) ← Contract.load fs (s.contractPath root)
  match taxonomy.violations contract with
  | [] => return taxonomy
  | violations => .error (.rejected violations)

end ReleaseGate
