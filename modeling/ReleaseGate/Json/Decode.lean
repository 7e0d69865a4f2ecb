import ReleaseGate.Text.Utf8
import ReleaseGate.NameMap
import ReleaseGate.Json.Tree
import ReleaseGate.Json.Value

/-!
# Values from syntax trees

A decoder goes through a tree from left to right and stops at the first thing that is wrong: the
spelling, or a value that does not fit. Fields that no decoder asks for are skimmed, which looks at
their spelling alone.
-/
namespace ReleaseGate.Json

/-- Not a document, a document that ends too early, or one that does not fit what is asked for. -/
inductive Fault where
  | malformed
  | ended
  | mistyped
deriving DecidableEq, Repr

abbrev Decoder (α : Type) := Tree → Except Fault α

def Break.fault : Break → Fault
  | .ended => .ended
  | .endedInNumber => .ended
  | .endedAtName => .ended
  | .malformed => .malformed

/-- A number that ends too early counts as misspelled where it is only skimmed. -/
def Break.skimFault : Break → Fault
  | .ended => .ended
  | .endedInNumber => .malformed
  | .endedAtName => .ended
  | .malformed => .malformed

namespace Text

def isHigh (n : Nat) : Bool := 0xD800 ≤ n && n ≤ 0xDBFF

def isLow (n : Nat) : Bool := 0xDC00 ≤ n && n ≤ 0xDFFF

/-- The bytes of a text. Units written in hexadecimal stand for characters, two surrogates for
one. -/
def bytes (cut : Option Break) : List Piece → Except Fault (List UInt8)
  | [] =>
    match cut with
    | none => .ok []
    | some why => .error why.fault
  | .byte b :: pieces => do return b :: (← bytes cut pieces)
  | .unit n :: pieces =>
    if isLow n then .error .malformed
    else if isHigh n then
      match pieces with
      | .unit m :: pieces =>
        if isLow m then do
          let c := Char.ofNat (0x10000 + (n - 0xD800) * 0x400 + (m - 0xDC00))
          return String.utf8EncodeChar c ++ (← bytes cut pieces)
        else .error .malformed
      | [] => .error ((cut.map Break.fault).getD .malformed)
      | _ => .error .malformed
    else do return String.utf8EncodeChar (Char.ofNat n) ++ (← bytes cut pieces)

def decode (t : Text) : Except Fault String := do
  match Text.Utf8.decode? (← bytes t.cut t.pieces) with
  | some s => return String.ofList s
  | none => .error .malformed

end Text

namespace Tree

def skimText (t : Text) : Except Fault Unit :=
  match t.cut with
  | none => .ok ()
  | some why => .error why.skimFault

mutual

/-- Looks at the spelling alone: neither the range of numbers, nor the content of texts, nor the
depth of nesting matters. -/
def skim : Tree → Except Fault Unit
  | .null => .ok ()
  | .bool _ => .ok ()
  | .number _ => .ok ()
  | .text t => skimText t
  | .list items cut => do
    skimItems items
    match cut with
    | none => .ok ()
    | some why => .error why.skimFault
  | .record members cut => do
    skimMembers members
    match cut with
    | none => .ok ()
    | some why => .error why.skimFault
  | .broken why => .error why.skimFault
  | .absent => .error .ended

def skimItems : List Tree → Except Fault Unit
  | [] => .ok ()
  | item :: items => do skim item; skimItems items

def skimMembers : List (Text × Tree) → Except Fault Unit
  | [] => .ok ()
  | (name, v) :: members => do skimText name; skim v; skimMembers members

end

/-- What is wrong with a tree where something else is asked for. A scalar is read before it is
refused, and its own defects come first. -/
def mismatch : Tree → Fault
  | .number l => if l.toNumber?.isSome then .mistyped else .malformed
  | .text t =>
    match t.decode with
    | .ok _ => .mistyped
    | .error fault => fault
  | .broken why => why.fault
  | .absent => .ended
  | _ => .mistyped

/-- What is wrong with the end of a list or record. -/
def atEnd : Option Break → Except Fault Unit
  | none => .ok ()
  | some why => .error why.fault

def insertField (name : String) (v : Value) (fields : List (String × Value)) :
    List (String × Value) :=
  NameMap.insertEntry name v fields

mutual

/-- The value of a tree whose lists and records may be nested `room` deep. Of two fields with one
name the later counts. -/
def toValue (room : Nat) : Decoder Value
  | .null => .ok .null
  | .bool b => .ok (.bool b)
  | .number l =>
    match l.toNumber? with
    | some n => .ok (.number n)
    | none => .error .malformed
  | .text t => do return .text (← t.decode)
  | .list items cut =>
    match room with
    | 0 => .error .malformed
    | room + 1 => do
      let values ← toValues room items
      atEnd cut
      return .list values
  | .record members cut =>
    match room with
    | 0 => .error .malformed
    | room + 1 => do
      let fields ← toFields room [] members
      atEnd cut
      return .record fields
  | .broken why => .error why.fault
  | .absent => .error .ended

def toValues (room : Nat) : List Tree → Except Fault (List Value)
  | [] => .ok []
  | item :: items => do
    let v ← toValue room item
    return v :: (← toValues room items)

def toFields (room : Nat) (fields : List (String × Value)) :
    List (Text × Tree) → Except Fault (List (String × Value))
  | [] => .ok fields
  | (name, v) :: members => do
    let name ← name.decode
    let v ← toValue room v
    toFields room (insertField name v fields) members

end

def toText : Decoder String
  | .text t => t.decode
  | t => .error t.mismatch

/-- An integer of a 64-bit word. -/
def toWord : Decoder UInt64
  | .number l =>
    match l.toNumber? with
    | some (.whole n) => if 0 ≤ n then .ok n.toNat.toUInt64 else .error .mistyped
    | some (.real _) => .error .mistyped
    | none => .error .malformed
  | t => .error t.mismatch

/-- Any number, rounded if it is an integer of more than 53 bits. -/
def toReal : Decoder Decimal.Binary64
  | .number l =>
    match l.toNumber? with
    | some (.whole n) => .ok (((Decimal.Binary64.ofNat? n.natAbs).getD .zero).withSign (n < 0))
    | some (.real x) => .ok x
    | none => .error .malformed
  | t => .error t.mismatch

/-- Null stands for nothing. -/
def toOption (decode : Decoder α) : Decoder (Option α)
  | .null => .ok none
  | t => do return some (← decode t)

def eachItem (decode : Decoder α) : List Tree → Except Fault (List α)
  | [] => .ok []
  | item :: items => do
    let a ← decode item
    return a :: (← eachItem decode items)

def toList (decode : Decoder α) : Decoder (List α)
  | .list items cut => do
    let values ← eachItem decode items
    atEnd cut
    return values
  | t => .error t.mismatch

def toNameSet (t : Tree) : Except Fault NameSet := do
  return NameSet.ofNames (← toList toText t)

def eachMember (decode : Decoder α) (m : NameMap α) : List (Text × Tree) → Except Fault (NameMap α)
  | [] => .ok m
  | (name, v) :: members => do
    let name ← name.decode
    let a ← decode v
    eachMember decode (m.insert name a) members

def toNameMap (decode : Decoder α) : Decoder (NameMap α)
  | .record members cut => do
    let m ← eachMember decode .empty members
    atEnd cut
    return m
  | t => .error t.mismatch

/-- One of a few words: its text, or a record with that name alone and null under it. -/
def toChoice (choices : List (String × α)) : Decoder α
  | .text t => do choose (← t.decode)
  | .record [] none => .error .malformed
  | .record [] (some why) => .error why.fault
  | .record ((name, v) :: members) cut => do
    let a ← choose (← name.decode)
    match v with
    | .null => if members.isEmpty && cut != some .endedAtName then atEnd cut else .error .malformed
    | v => .error v.mismatch
    return a
  | .absent => .error .ended
  | _ => .error .malformed
where
  choose (name : String) : Except Fault α :=
    match choices.lookup name with
    | some a => .ok a
    | none => .error .mistyped

end Tree

/-- A field of a record type: how its value changes a record under construction. -/
structure RecordField (α : Type) where
  name : String
  required : Bool
  set : Tree → α → Except Fault α

def RecordField.needed (name : String) (decode : Decoder β) (set : β → α → α) : RecordField α :=
  ⟨name, true, fun t a => do return set (← decode t) a⟩

def RecordField.optional (name : String) (decode : Decoder β) (set : β → α → α) : RecordField α :=
  ⟨name, false, fun t a => do return set (← decode t) a⟩

namespace Tree

/-- The members of a record in the order met. A field may be set once. -/
def setMembers (fields : List (RecordField α)) (set : List String) (a : α) :
    List (Text × Tree) → Except Fault (List String × α)
  | [] => .ok (set, a)
  | (name, v) :: members => do
    let name ← name.decode
    match fields.find? (·.name == name) with
    | none =>
      skim v
      setMembers fields set a members
    | some field =>
      if set.contains name then .error .mistyped
      else do
        let a ← field.set v a
        setMembers fields (name :: set) a members

/-- The fields of a record written as a list, in the order of the type. -/
def setItems : List (RecordField α) → α → List Tree → Option Break → Except Fault α
  | [], a, [], cut => do atEnd cut; return a
  | [], _, _ :: _, _ => .error .malformed
  | field :: fields, a, item :: items, cut => do
    let a ← field.set item a
    setItems fields a items cut
  | field :: fields, a, [], cut => do
    atEnd cut
    if field.required then .error .mistyped else setItems fields a [] cut

/-- A record of the given fields, built from a blank one. -/
def toRecord (fields : List (RecordField α)) (blank : α) : Decoder α
  | .record members cut => do
    let (set, a) ← setMembers fields [] blank members
    atEnd cut
    if fields.all fun field => !field.required || set.contains field.name then return a
    else .error .mistyped
  | .list items cut => setItems fields blank items cut
  | t => .error t.mismatch

end Tree

/-- How deep the lists and records of a document may be nested. -/
def nestingLimit : Nat := 127

/-- A document holds one value and nothing after it. -/
def decodeDocument (decode : Decoder α) (bytes : List UInt8) : Except Fault α := do
  let document := Document.ofBytes bytes
  let a ← decode document.root
  if document.trailing then .error .malformed else return a

def readValue (bytes : List UInt8) : Except Fault Value :=
  decodeDocument (Tree.toValue nestingLimit) bytes

end ReleaseGate.Json
