import ReleaseGate.Text.Search

/-!
# Names and quoted texts

Texts stand between double quotes, where a backslash escapes, or between single quotes, where
nothing does. Three quotes instead of one allow line breaks.
-/
namespace ReleaseGate.Toml

open ReleaseGate.Text

def isBlankChar (c : Char) : Bool :=
  c == ' ' || c == '\t'

def skipBlanks (s : List Char) : List Char :=
  s.dropWhile isBlankChar

/-- Any character but the controls; the tab is no control here. -/
def isPlain (c : Char) : Bool :=
  c == '\t' || (0x20 ≤ c.toNat && c.toNat != 0x7F)

def hexValue? (c : Char) : Option Nat :=
  if '0' ≤ c ∧ c ≤ '9' then some (c.toNat - 48)
  else if 'a' ≤ c ∧ c ≤ 'f' then some (c.toNat - 87)
  else if 'A' ≤ c ∧ c ≤ 'F' then some (c.toNat - 55)
  else none

/-- The character with the given number, if it is one. -/
def hexChar? (digits : List Char) : Option Char := do
  let n := (← digits.mapM hexValue?).foldl (fun n d => n * 16 + d) 0
  if h : n.isValidChar then some (Char.ofNatAux n h) else none

/-- What a backslash and a letter stand for. -/
def escaped? (c : Char) : Option Char :=
  if c = 'b' then some '\x08'
  else if c = 't' then some '\t'
  else if c = 'n' then some '\n'
  else if c = 'f' then some '\x0C'
  else if c = 'r' then some '\r'
  else if c = '"' ∨ c = '\\' then some c
  else none

def consTo (c : Char) (found : List Char × List Char) : List Char × List Char :=
  (c :: found.1, found.2)

/-- The rest of a text between double quotes. -/
def basicText : Form (List Char)
  | [] => none
  | '"' :: rest => some ([], rest)
  | '\\' :: 'u' :: a :: b :: c :: d :: rest => do
    return consTo (← hexChar? [a, b, c, d]) (← basicText rest)
  | '\\' :: 'U' :: a :: b :: c :: d :: e :: f :: g :: h :: rest => do
    return consTo (← hexChar? [a, b, c, d, e, f, g, h]) (← basicText rest)
  | '\\' :: c :: rest => do return consTo (← escaped? c) (← basicText rest)
  | c :: rest => do
    if isPlain c then return consTo c (← basicText rest) else none

/-- The rest of a text between single quotes. -/
def literalText : Form (List Char)
  | [] => none
  | c :: rest =>
    if c = '\'' then some ([], rest)
    else if isPlain c then (literalText rest).map (consTo c)
    else none

/-- Whether only blanks stand before the end of the line. -/
def endsLine (s : List Char) : Bool :=
  match skipBlanks s with
  | '\n' :: _ => true
  | '\r' :: '\n' :: _ => true
  | _ => false

/-- The rest of a text between three double quotes. Up to two quotes may stand before the closing
ones. A backslash that ends its line is dropped with all blanks and line breaks after it, which
are being skipped where `skipping` is set. -/
def basicLines : Bool → Form (List Char)
  | _, [] => none
  | true, '\n' :: rest => basicLines true rest
  | true, '\r' :: '\n' :: rest => basicLines true rest
  | _, '"' :: '"' :: '"' :: '"' :: '"' :: rest => some (['"', '"'], rest)
  | _, '"' :: '"' :: '"' :: '"' :: rest => some (['"'], rest)
  | _, '"' :: '"' :: '"' :: rest => some ([], rest)
  | _, '\\' :: 'u' :: a :: b :: c :: d :: rest => do
    return consTo (← hexChar? [a, b, c, d]) (← basicLines false rest)
  | _, '\\' :: 'U' :: a :: b :: c :: d :: e :: f :: g :: h :: rest => do
    return consTo (← hexChar? [a, b, c, d, e, f, g, h]) (← basicLines false rest)
  | _, '\\' :: c :: rest =>
    if endsLine (c :: rest) then basicLines true (c :: rest)
    else do return consTo (← escaped? c) (← basicLines false rest)
  | false, '\r' :: '\n' :: rest => (basicLines false rest).map (consTo '\n')
  | false, '\n' :: rest => (basicLines false rest).map (consTo '\n')
  | skipping, c :: rest =>
    if skipping && isBlankChar c then basicLines true rest
    else if isPlain c then (basicLines false rest).map (consTo c)
    else none

/-- The rest of a text between three single quotes. -/
def literalLines : Form (List Char)
  | [] => none
  | '\'' :: '\'' :: '\'' :: '\'' :: '\'' :: rest => some (['\'', '\''], rest)
  | '\'' :: '\'' :: '\'' :: '\'' :: rest => some (['\''], rest)
  | '\'' :: '\'' :: '\'' :: rest => some ([], rest)
  | '\r' :: '\n' :: rest => (literalLines rest).map (consTo '\n')
  | '\n' :: rest => (literalLines rest).map (consTo '\n')
  | c :: rest => if isPlain c then (literalLines rest).map (consTo c) else none

/-- A line break directly behind three opening quotes does not count. -/
def dropFirstBreak : List Char → List Char
  | '\n' :: rest => rest
  | '\r' :: '\n' :: rest => rest
  | s => s

/-- A quoted text of any kind. -/
def quotedText : Form (List Char)
  | '"' :: '"' :: '"' :: rest => basicLines false (dropFirstBreak rest)
  | '\'' :: '\'' :: '\'' :: rest => literalLines (dropFirstBreak rest)
  | '"' :: rest => basicText rest
  | '\'' :: rest => literalText rest
  | _ => none

def isNameChar (c : Char) : Bool :=
  c.isAlphanum || c == '_' || c == '-'

/-- A bare or quoted name. -/
def simpleName : Form String := fun s =>
  match s with
  | '"' :: rest => (basicText rest).map fun found => (String.ofList found.1, found.2)
  | '\'' :: rest => (literalText rest).map fun found => (String.ofList found.1, found.2)
  | _ =>
    let name := s.takeWhile isNameChar
    if name.isEmpty then none else some (String.ofList name, s.dropWhile isNameChar)

/-- Names with dots between them, and blanks anywhere around them, at most as many as given. -/
def dottedName : Nat → Form (List String)
  | 0, _ => none
  | more + 1, s => do
    let (name, rest) ← simpleName (skipBlanks s)
    match skipBlanks rest with
    | '.' :: rest =>
      let (names, tail) ← dottedName more rest
      return (name :: names, tail)
    | rest => return ([name], rest)

/-- How deep the lists and tables of a value may be nested, and how many parts a name may have. -/
def depthLimit : Nat := 79

/-- A name, each part of which leads one table deeper. -/
def name : Form (List String) :=
  dottedName depthLimit

end ReleaseGate.Toml
