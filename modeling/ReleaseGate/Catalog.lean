import ReleaseGate.Json.Decode

/-!
# Extension catalogs

A catalog lists extensions, each with the tier that it comes from. Two tiers are told apart, and all
other entries count toward the total alone.
-/
namespace ReleaseGate

/-- The tier of an entry may be absent, and any value is accepted for it. -/
structure Catalog.Entry where
  tier : Option Json.Value := none
deriving Inhabited

structure Catalog where
  entries : List Catalog.Entry := []

namespace Catalog

structure Counts where
  official : Nat := 0
  community : Nat := 0
  total : Nat := 0
deriving DecidableEq, Repr

/-- Three levels are open around the tier of an entry. -/
def Entry.fields : List (Json.RecordField Entry) :=
  [.optional "source_tier" (Json.Tree.toOption (Json.Tree.toValue (Json.nestingLimit - 3)))
    fun tier e => { e with tier }]

def fields : List (Json.RecordField Catalog) :=
  [.optional "extensions" (Json.Tree.toList (Json.Tree.toRecord Entry.fields {}))
    fun entries c => { c with entries }]

def read (bytes : List UInt8) : Except Json.Fault Catalog :=
  Json.decodeDocument (Json.Tree.toRecord fields {}) bytes

def Entry.isOf (tier : String) (e : Entry) : Bool :=
  e.tier.bind Json.Value.asText? == some tier

/-- An entry whose tier has both names is official. -/
def count (c : Catalog) (official community : String) : Counts where
  official := c.entries.countP (·.isOf official)
  community := c.entries.countP fun e => e.isOf community && !e.isOf official
  total := c.entries.length

end Catalog

end ReleaseGate
