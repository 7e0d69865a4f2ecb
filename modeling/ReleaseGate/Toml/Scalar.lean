import ReleaseGate.Toml.Text
import ReleaseGate.Decimal.Binary64
import ReleaseGate.Time.Date

/-!
# Scalars

Truth values, numbers, dates and times, as far as they are told from what is no value at all.
-/
namespace ReleaseGate.Toml

open ReleaseGate.Text

/-- The parts between separators. -/
def splitAt (separator : Char) : List Char → List (List Char)
  | [] => [[]]
  | c :: rest =>
    if c = separator then [] :: splitAt separator rest
    else
      match splitAt separator rest with
      | [] => [[c]]
      | part :: parts => (c :: part) :: parts

/-- Digits with single underscores between them. -/
def isDigits (isDigit : Char → Bool) (s : List Char) : Bool :=
  (splitAt '_' s).all fun part => !part.isEmpty && part.all isDigit

def valueIn (base : Nat) (s : List Char) : Nat :=
  (s.filterMap hexValue?).foldl (fun n d => n * base + d) 0

def dropSign (s : List Char) : List Char :=
  match s with
  | '+' :: rest => rest
  | '-' :: rest => rest
  | _ => s

/-- Decimal digits without a leading zero. -/
def isDecimal (s : List Char) : Bool :=
  isDigits Char.isDigit s && (s.length ≤ 1 || s.head? != some '0')

/-- Where the integers of a signed word of 64 bits end. -/
def integerLimit : Nat := 1 <<< 63

/-- Integers fit a signed word of 64 bits. -/
def isInteger (s : List Char) : Bool :=
  match s with
  | '0' :: 'x' :: digits =>
    isDigits (fun c => (hexValue? c).isSome) digits && valueIn 16 digits < integerLimit
  | '0' :: 'o' :: digits =>
    isDigits (fun c => '0' ≤ c && c ≤ '7') digits && valueIn 8 digits < integerLimit
  | '0' :: 'b' :: digits =>
    isDigits (fun c => c == '0' || c == '1') digits && valueIn 2 digits < integerLimit
  | _ =>
    isDecimal (dropSign s) &&
      valueIn 10 (dropSign s) < integerLimit + (if s.head? = some '-' then 1 else 0)

def isExponent (s : List Char) : Bool :=
  isDigits Char.isDigit (dropSign s)

/-- The mantissa of a real number, and its exponent or nothing. -/
def splitExponent (s : List Char) : List Char × List Char :=
  let mantissa := s.takeWhile fun c => c != 'e' && c != 'E'
  (mantissa, s.drop (mantissa.length + 1))

/-- Whether digits with a point in front, scaled by a power of ten, come to less than the least
magnitude that rounds beyond all numbers of 53-bit precision. Every such number is below
`10 ^ 309` and the greatest is above `10 ^ 308`, so only in between do the digits themselves
matter. -/
def isFinite (digits : List Char) (scale : Int) : Bool :=
  let significant := digits.dropWhile (· == '0')
  let lead := scale - (digits.length - significant.length : Nat)
  if significant.isEmpty || lead ≤ 308 then true
  else if 309 < lead then false
  else
    (Decimal.Binary64.ofQuotient (valueIn 10 significant * Nat.pow 10 309)
      (Nat.pow 10 significant.length)).isSome

/-- Whether a number with a fraction or an exponent is finite; only the magnitude counts. -/
def fitsFloat (whole fraction exponent : List Char) : Bool :=
  let digits := fun s => s.filter Char.isDigit
  let shift : Int := valueIn 10 (dropSign exponent)
  isFinite (digits whole ++ digits fraction)
    ((digits whole).length + if exponent.head? = some '-' then -shift else shift)

/-- Numbers with a fraction or an exponent, infinities, and what is no number. One without a minus
sign has to be finite unless it is spelled as an infinity. -/
def isFloat (s : List Char) : Bool :=
  let body := dropSign s
  let (mantissa, exponent) := splitExponent body
  let fits := fun whole fraction =>
    s.head? = some '-' || fitsFloat whole fraction exponent
  if body = "inf".toList ∨ body = "nan".toList then true
  else
    match splitAt '.' mantissa with
    | [whole] => isDecimal whole && isExponent exponent && fits whole []
    | [whole, fraction] =>
      isDecimal whole && isDigits Char.isDigit fraction &&
      (mantissa.length == body.length || isExponent exponent) && fits whole fraction
    | _ => false

def twoDigits? (a b : Char) : Option Nat :=
  if a.isDigit && b.isDigit then some ((a.toNat - 48) * 10 + (b.toNat - 48)) else none

def date : Form Unit
  | y₁ :: y₂ :: y₃ :: y₄ :: '-' :: m₁ :: m₂ :: '-' :: d₁ :: d₂ :: rest => do
    let year : Int := (← twoDigits? y₁ y₂) * 100 + (← twoDigits? y₃ y₄)
    let date : Time.Date := ⟨year, ← twoDigits? m₁ m₂, ← twoDigits? d₁ d₂⟩
    if date.isValid then some ((), rest) else none
  | _ => none

def time : Form Unit
  | h₁ :: h₂ :: ':' :: m₁ :: m₂ :: ':' :: s₁ :: s₂ :: rest => do
    if (← twoDigits? h₁ h₂) ≤ 23 ∧ (← twoDigits? m₁ m₂) ≤ 59 ∧ (← twoDigits? s₁ s₂) ≤ 60 then
      match rest with
      | '.' :: tail =>
        if tail.head?.any Char.isDigit then some ((), tail.dropWhile Char.isDigit) else none
      | _ => some ((), rest)
    else none
  | _ => none

def isOffset (s : List Char) : Bool :=
  match s with
  | [] => true
  | ['Z'] => true
  | ['z'] => true
  | [sign, h₁, h₂, ':', m₁, m₂] =>
    (sign == '+' || sign == '-') && (twoDigits? h₁ h₂).any (· ≤ 23) &&
      (twoDigits? m₁ m₂).any (· ≤ 59)
  | _ => false

def isMoment (s : List Char) : Bool :=
  match date s with
  | some ((), []) => true
  | some ((), mark :: rest) =>
    (mark == 'T' || mark == 't' || mark == ' ') && (time rest).any fun found => isOffset found.2
  | none => (time s).any fun found => found.2.isEmpty

def isScalarChar (c : Char) : Bool :=
  c.isAlphanum || c == '_' || c == '+' || c == '-' || c == '.' || c == ':'

/-- A word of scalar characters, or two words that are a date and a time. -/
def scalar : Form Unit := fun s =>
  let word := s.takeWhile isScalarChar
  let rest := s.dropWhile isScalarChar
  let extended := match rest with
    | ' ' :: tail => word ++ ' ' :: tail.takeWhile isScalarChar
    | _ => word
  if extended.length != word.length && isMoment extended then some ((), s.drop extended.length)
  else if word = "true".toList ∨ word = "false".toList then some ((), rest)
  else if isInteger word || isFloat word || isMoment word then some ((), rest)
  else none

end ReleaseGate.Toml
