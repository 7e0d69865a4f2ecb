import ReleaseGate.Json.Value

/-!
# Written documents

A document has a compact form on one line and a laid-out form with two spaces for each level.
-/
namespace ReleaseGate.Json

def hexDigit (n : Nat) : Char :=
  Nat.digitChar n

/-- Only the double quote, the backslash and the controls below the space are escaped. -/
def escape (c : Char) : List Char :=
  if c = '"' then ['\\', '"']
  else if c = '\\' then ['\\', '\\']
  else if c = '\x08' then ['\\', 'b']
  else if c = '\x0C' then ['\\', 'f']
  else if c = '\n' then ['\\', 'n']
  else if c = '\r' then ['\\', 'r']
  else if c = '\t' then ['\\', 't']
  else if c.toNat < 0x20 then
    ['\\', 'u', '0', '0', hexDigit (c.toNat / 16), hexDigit (c.toNat % 16)]
  else [c]

def quote (s : String) : List Char :=
  '"' :: (s.toList.flatMap escape ++ ['"'])

/-- What joins the second to the last of some pieces. -/
def joined (separator : List Char) : List (List Char) → List Char
  | [] => []
  | [piece] => piece
  | piece :: pieces => piece ++ separator ++ joined separator pieces

mutual

def compact : Value → List Char
  | .null => ['n', 'u', 'l', 'l']
  | .bool true => ['t', 'r', 'u', 'e']
  | .bool false => ['f', 'a', 'l', 's', 'e']
  | .number n => n.text
  | .text s => quote s
  | .list items => '[' :: (joined [','] (compactItems items) ++ [']'])
  | .record fields => '\x7b' :: (joined [','] (compactFields fields) ++ ['\x7d'])

def compactItems : List Value → List (List Char)
  | [] => []
  | v :: items => compact v :: compactItems items

def compactFields : List (String × Value) → List (List Char)
  | [] => []
  | (name, v) :: fields => (quote name ++ ':' :: compact v) :: compactFields fields

end

def newLine (level : Nat) : List Char :=
  '\n' :: List.replicate (2 * level) ' '

/-- Brackets around pieces that each stand on a line of their own; nothing between them if there is
no piece. -/
def block (opening closing : Char) (level : Nat) (pieces : List (List Char)) : List Char :=
  if pieces.isEmpty then [opening, closing]
  else opening :: (newLine (level + 1) ++ joined (',' :: newLine (level + 1)) pieces ++
    newLine level ++ [closing])

mutual

def pretty (level : Nat) : Value → List Char
  | .list items => block '[' ']' level (prettyItems (level + 1) items)
  | .record fields => block '\x7b' '\x7d' level (prettyFields (level + 1) fields)
  | .null => compact .null
  | .bool b => compact (.bool b)
  | .number n => compact (.number n)
  | .text s => compact (.text s)

def prettyItems (level : Nat) : List Value → List (List Char)
  | [] => []
  | v :: items => pretty level v :: prettyItems level items

def prettyFields (level : Nat) : List (String × Value) → List (List Char)
  | [] => []
  | (name, v) :: fields => (quote name ++ ':' :: ' ' :: pretty level v) :: prettyFields level fields

end

def Value.compactText (v : Value) : String :=
  String.ofList (compact v)

def Value.prettyText (v : Value) : String :=
  String.ofList (pretty 0 v)

end ReleaseGate.Json
