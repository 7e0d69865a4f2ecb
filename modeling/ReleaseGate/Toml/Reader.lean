import ReleaseGate.Toml.Scalar
import ReleaseGate.Toml.Value

/-!
# Reading settings documents

A document is read line by line; lists go over several lines. What does not follow the grammar, or
contradicts what was said before, is no document.
-/
namespace ReleaseGate.Toml

open ReleaseGate.Text

/-- Skips blanks, line breaks and comments; `true` inside a comment. -/
def skipGap : Bool → List Char → Option (List Char)
  | _, [] => some []
  | _, '\r' :: '\n' :: rest => skipGap false rest
  | _, '\n' :: rest => skipGap false rest
  | true, c :: rest => if isPlain c then skipGap true rest else none
  | false, c :: rest =>
    if isBlankChar c then skipGap false rest
    else if c = '#' then skipGap true rest
    else some (c :: rest)

/-- The items of a list whose bracket is open, each followed by a comma or the closing bracket.
Every step takes a character, so as many as there are characters suffice. -/
def items (item : Form Value) : Nat → Form (List Value)
  | 0, _ => none
  | steps + 1, s => do
    match ← skipGap false s with
    | ']' :: rest => return ([], rest)
    | s =>
      let (v, rest) ← item s
      match ← skipGap false rest with
      | ',' :: rest =>
        let (vs, tail) ← items item steps rest
        return (v :: vs, tail)
      | ']' :: rest => return ([v], rest)
      | _ => none

/-- A name, an equals sign, and a value. -/
def pair (item : Form Value) : Form (List String × Value) := fun s => do
  let (names, rest) ← name s
  let rest ← after? ['='] rest
  let (v, tail) ← item (skipBlanks rest)
  return ((names, v), tail)

/-- The pairs of a table in braces, all on one line and with nothing behind the last one. -/
def pairs (item : Form Value) : Nat → Form (List (List String × Value))
  | 0, _ => none
  | steps + 1, s => do
    let (p, rest) ← pair item s
    match skipBlanks rest with
    | ',' :: rest =>
      let (ps, tail) ← pairs item steps rest
      return (p :: ps, tail)
    | '\x7d' :: rest => return ([p], rest)
    | _ => none

def simpleValue : Form Value := fun s =>
  match quotedText s with
  | some (content, rest) => some (.text (String.ofList content), rest)
  | none => (scalar s).map fun found => (.scalar, found.2)

/-- A value whose lists and tables may be nested `room` deep. -/
def value : Nat → Form Value
  | 0, s => simpleValue s
  | room + 1, s =>
    match s with
    | '[' :: rest => do
      let (vs, tail) ← items (value room) rest.length rest
      return (.list false vs, tail)
    | '\x7b' :: rest =>
      match skipBlanks rest with
      | '\x7d' :: rest => some (.table .inline [], rest)
      | rest => do
        let (ps, tail) ← pairs (value room) rest.length rest
        return (.table .inline (← Table.ofPairs ps), tail)
    | _ => simpleValue s

/-- The rest of a line, which holds nothing but a comment. -/
def endLine (s : List Char) : Option (List Char) :=
  match skipBlanks s with
  | [] => some []
  | '\n' :: rest => some rest
  | '\r' :: '\n' :: rest => some rest
  | '#' :: rest =>
    match rest.dropWhile isPlain with
    | [] => some []
    | '\n' :: rest => some rest
    | '\r' :: '\n' :: rest => some rest
    | _ => none
  | _ => none

def header (names : List String) (statement : List String → String → Statement) :
    Option Statement :=
  names.getLast?.map (statement names.dropLast)

/-- What a line says; `none` in the first part if it says nothing. -/
def line : Form (Option Statement) := fun s =>
  match skipBlanks s with
  | '[' :: '[' :: rest => do
    let (names, rest) ← name rest
    let rest ← endLine (← after? [']', ']'] rest)
    return (some (← header names .openRow), rest)
  | '[' :: rest => do
    let (names, rest) ← name rest
    let rest ← endLine (← after? [']'] rest)
    return (some (← header names .openTable), rest)
  | s =>
    match endLine s with
    | some rest => some (none, rest)
    | none => do
      let ((names, v), rest) ← pair (value depthLimit) s
      return (some (.assign names v), ← endLine rest)

/-- Every line takes a character, so as many steps as there are characters suffice. -/
def lines : Nat → List Char → Option (List Statement)
  | _, [] => some []
  | 0, _ :: _ => none
  | steps + 1, s => do
    let (said, rest) ← line s
    return said.toList ++ (← lines steps rest)

/-- A byte order mark at the start does not count. -/
def read (s : List Char) : Option Table := do
  let s := match s with
    | '\uFEFF' :: rest => rest
    | s => s
  Table.ofStatements (← lines s.length s)

end ReleaseGate.Toml
