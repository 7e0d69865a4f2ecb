import ReleaseGate.Json.Number

/-!
# Document values

The fields of a record are kept in order. A value that was read has them in the order of their
names, each name once.
-/
namespace ReleaseGate.Json

inductive Value where
  | null
  | bool (b : Bool)
  | number (n : Number)
  | text (s : String)
  | list (items : List Value)
  | record (fields : List (String × Value))
deriving Repr, Inhabited

namespace Value

def asText? : Value → Option String
  | .text s => some s
  | _ => none

def asList? : Value → Option (List Value)
  | .list items => some items
  | _ => none

def asRecord? : Value → Option (List (String × Value))
  | .record fields => some fields
  | _ => none

def isNumber : Value → Bool
  | .number _ => true
  | _ => false

def isRecord (v : Value) : Bool :=
  v.asRecord?.isSome

/-- A field of a record; other values have none. -/
def field? (v : Value) (name : String) : Option Value :=
  v.asRecord?.bind (·.lookup name)

def nat (n : Nat) : Value :=
  .number (.whole n)

def word (n : UInt64) : Value :=
  .nat n.toNat

end Value

end ReleaseGate.Json
