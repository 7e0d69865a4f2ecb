import ReleaseGate.Json.Token

/-!
# Syntax trees

The tokens of a document as a tree that reaches as far as the spelling does. Whoever makes a value
of the tree goes through it from left to right and reports the first thing that is wrong.
-/
namespace ReleaseGate.Json

/-- A list or record that is not closed is cut, so a record that begins with anything but a name is
cut before its first member. `absent` is where the tokens have ended and a value is due. -/
inductive Tree where
  | null
  | bool (b : Bool)
  | number (l : Literal)
  | text (t : Text)
  | list (items : List Tree) (cut : Option Break)
  | record (members : List (Text × Tree)) (cut : Option Break)
  | broken (why : Break)
  | absent

namespace Tree

/-- What a missing token means: the end of the tokens, or another token in its place. -/
def unexpected : List Token → Break
  | [] => .ended
  | _ :: _ => .malformed

/-- What stands for a value that the tokens do not lead to. -/
def unreached : List Token → Tree
  | [] => .absent
  | _ :: _ => .broken .malformed

mutual

/-- The value at the front of the tokens, and the tokens after it. Every step below takes a token or
fails, so as many as there are tokens suffice. -/
def value : Nat → List Token → Tree × List Token
  | 0, _ => (.absent, [])
  | _ + 1, .null :: rest => (.null, rest)
  | _ + 1, .bool b :: rest => (.bool b, rest)
  | _ + 1, .number l :: rest => (.number l, rest)
  | _ + 1, .text t :: rest => (.text t, rest)
  | _ + 1, .openList :: .closeList :: rest => (.list [] none, rest)
  | steps + 1, .openList :: rest =>
    let (items, cut, tail) := itemsFrom steps rest
    (.list items cut, tail)
  | _ + 1, .openRecord :: .closeRecord :: rest => (.record [] none, rest)
  | steps + 1, .openRecord :: rest =>
    let (members, cut, tail) := membersFrom steps rest
    (.record members cut, tail)
  | _ + 1, .broken why :: _ => (.broken why, [])
  | _ + 1, tokens => (unreached tokens, [])

def itemsFrom : Nat → List Token → List Tree × Option Break × List Token
  | 0, _ => ([], some .ended, [])
  | _ + 1, [] => ([], some .ended, [])
  | steps + 1, tokens =>
    let (item, rest) := value steps tokens
    match rest with
    | .comma :: [] => ([item, .absent], some .ended, [])
    | .comma :: rest =>
      let (items, cut, tail) := itemsFrom steps rest
      (item :: items, cut, tail)
    | .closeList :: rest => ([item], none, rest)
    | rest => ([item], some (unexpected rest), [])

def membersFrom : Nat → List Token → List (Text × Tree) × Option Break × List Token
  | 0, _ => ([], some .endedAtName, [])
  | _ + 1, [] => ([], some .endedAtName, [])
  | steps + 1, .text name :: .colon :: rest =>
    let (v, rest) := value steps rest
    match rest with
    | .comma :: rest =>
      let (members, cut, tail) := membersFrom steps rest
      ((name, v) :: members, cut, tail)
    | .closeRecord :: rest => ([(name, v)], none, rest)
    | rest => ([(name, v)], some (unexpected rest), [])
  | _ + 1, .text name :: rest => ([(name, unreached rest)], some .malformed, [])
  | _ + 1, _ :: _ => ([], some .malformed, [])

end

end Tree

/-- A value, and whether anything but white space follows it. -/
structure Document where
  root : Tree
  trailing : Bool

def Document.ofBytes (bytes : List UInt8) : Document :=
  let all := tokens bytes
  let (root, rest) := Tree.value (2 * all.length + 1) all
  ⟨root, !rest.isEmpty⟩

end ReleaseGate.Json
