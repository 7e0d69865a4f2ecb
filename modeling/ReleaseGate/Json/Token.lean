import ReleaseGate.Json.Number

/-!
# Tokens

A byte sequence is cut into tokens up to the first place where its spelling breaks. What a text
holds, and whether a number is in range, is judged only when a value is made of them.
-/
namespace ReleaseGate.Json

/-- Why a spelling breaks: the bytes end too early, also inside a number or where a name is due, or
they are wrong. -/
inductive Break where
  | ended
  | endedInNumber
  | endedAtName
  | malformed
deriving DecidableEq, Repr

/-- A byte of a text, or a sixteen-bit unit written in hexadecimal. -/
inductive Piece where
  | byte (b : UInt8)
  | unit (n : Nat)
deriving DecidableEq, Repr

/-- A quoted text, and why it breaks off if it is not closed. -/
structure Text where
  pieces : List Piece
  cut : Option Break
deriving DecidableEq, Repr

inductive Token where
  | openList
  | closeList
  | openRecord
  | closeRecord
  | colon
  | comma
  | null
  | bool (b : Bool)
  | number (l : Literal)
  | text (t : Text)
  | broken (why : Break)
deriving DecidableEq, Repr

def byteOf (c : Char) : UInt8 :=
  c.toNat.toUInt8

def isSpaceByte (b : UInt8) : Bool :=
  b == 0x20 || b == 0x09 || b == 0x0A || b == 0x0D

def digit? (b : UInt8) : Option Nat :=
  if 0x30 ≤ b ∧ b ≤ 0x39 then some (b.toNat - 0x30) else none

def hexValue? (b : UInt8) : Option Nat :=
  if 0x30 ≤ b ∧ b ≤ 0x39 then some (b.toNat - 0x30)
  else if 0x41 ≤ b ∧ b ≤ 0x46 then some (b.toNat - 0x37)
  else if 0x61 ≤ b ∧ b ≤ 0x66 then some (b.toNat - 0x57)
  else none

def hexUnit? (a b c d : UInt8) : Option Nat := do
  return (((← hexValue? a) * 16 + (← hexValue? b)) * 16 + (← hexValue? c)) * 16 + (← hexValue? d)

/-- The byte that a letter stands for after a backslash. -/
def escaped? (b : UInt8) : Option UInt8 :=
  if b = byteOf '"' ∨ b = byteOf '\\' ∨ b = byteOf '/' then some b
  else if b = byteOf 'b' then some 0x08
  else if b = byteOf 'f' then some 0x0C
  else if b = byteOf 'n' then some 0x0A
  else if b = byteOf 'r' then some 0x0D
  else if b = byteOf 't' then some 0x09
  else none

def Text.cons (piece : Piece) (t : Text) : Text :=
  { t with pieces := piece :: t.pieces }

/-- The text whose opening quote has been read, and the bytes after it. -/
def scanText : List UInt8 → Text × List UInt8
  | [] => (⟨[], some .ended⟩, [])
  | b :: rest =>
    if b = byteOf '"' then (⟨[], none⟩, rest)
    else if b = byteOf '\\' then
      match rest with
      | [] => (⟨[], some .ended⟩, [])
      | e :: rest =>
        if e = byteOf 'u' then
          match rest with
          | a :: b :: c :: d :: rest =>
            match hexUnit? a b c d with
            | some n =>
              let scanned := scanText rest
              (scanned.1.cons (.unit n), scanned.2)
            | none => (⟨[], some .malformed⟩, [])
          | _ => (⟨[], some .ended⟩, [])
        else
          match escaped? e with
          | some b =>
            let scanned := scanText rest
            (scanned.1.cons (.byte b), scanned.2)
          | none => (⟨[], some .malformed⟩, [])
    else if b < 0x20 then (⟨[], some .malformed⟩, [])
    else
      let scanned := scanText rest
      (scanned.1.cons (.byte b), scanned.2)

/-- The digits at the front, and what follows them. -/
def scanDigits (bytes : List UInt8) : List Nat × List UInt8 :=
  ((bytes.takeWhile fun b => (digit? b).isSome).filterMap digit?,
    bytes.dropWhile fun b => (digit? b).isSome)

/-- Where a digit is wanted and there is none. -/
def noDigit (rest : List UInt8) : Break :=
  if rest.isEmpty then .endedInNumber else .malformed

def scanExponent (l : Literal) : List UInt8 → Token × List UInt8
  | b :: rest =>
    if b = byteOf 'e' ∨ b = byteOf 'E' then
      let signed := rest.head? = some (byteOf '+') ∨ rest.head? = some (byteOf '-')
      let (digits, tail) := scanDigits (if signed then rest.drop 1 else rest)
      if digits.isEmpty then (.broken (noDigit tail), [])
      else (.number { l with exponent := some (rest.head? == some (byteOf '-'), digits) }, tail)
    else (.number l, b :: rest)
  | [] => (.number l, [])

def scanFraction (l : Literal) : List UInt8 → Token × List UInt8
  | b :: rest =>
    if b = byteOf '.' then
      let (digits, tail) := scanDigits rest
      if digits.isEmpty then (.broken (noDigit tail), [])
      else scanExponent { l with fraction := digits } tail
    else scanExponent l (b :: rest)
  | [] => (.number l, [])

/-- The number whose sign has been read. A leading zero stands alone. -/
def scanNumber (negative : Bool) (bytes : List UInt8) : Token × List UInt8 :=
  let (digits, rest) := scanDigits bytes
  match digits with
  | [] => (.broken (noDigit rest), [])
  | 0 :: _ :: _ => (.broken .malformed, [])
  | _ => scanFraction ⟨negative, digits, [], none⟩ rest

/-- The rest of a word, its first letter read. -/
def scanWord (token : Token) : List Char → List UInt8 → Token × List UInt8
  | [], bytes => (token, bytes)
  | _ :: _, [] => (.broken .ended, [])
  | c :: word, b :: bytes =>
    if byteOf c = b then scanWord token word bytes else (.broken .malformed, [])

def scanToken (b : UInt8) (rest : List UInt8) : Token × List UInt8 :=
  if b = byteOf '[' then (.openList, rest)
  else if b = byteOf ']' then (.closeList, rest)
  else if b = byteOf '\x7b' then (.openRecord, rest)
  else if b = byteOf '\x7d' then (.closeRecord, rest)
  else if b = byteOf ':' then (.colon, rest)
  else if b = byteOf ',' then (.comma, rest)
  else if b = byteOf 'n' then scanWord .null ['u', 'l', 'l'] rest
  else if b = byteOf 't' then scanWord (.bool true) ['r', 'u', 'e'] rest
  else if b = byteOf 'f' then scanWord (.bool false) ['a', 'l', 's', 'e'] rest
  else if b = byteOf '"' then
    let (t, tail) := scanText rest
    (.text t, tail)
  else if b = byteOf '-' then scanNumber true rest
  else if (digit? b).isSome then scanNumber false (b :: rest)
  else (.broken .malformed, [])

/-- Every token takes a byte at least, so as many steps as there are bytes suffice. -/
def tokensWithin : Nat → List UInt8 → List Token
  | 0, _ => []
  | steps + 1, bytes =>
    match bytes.dropWhile isSpaceByte with
    | [] => []
    | b :: rest =>
      let (token, tail) := scanToken b rest
      token :: tokensWithin steps tail

def tokens (bytes : List UInt8) : List Token :=
  tokensWithin bytes.length bytes

end ReleaseGate.Json
