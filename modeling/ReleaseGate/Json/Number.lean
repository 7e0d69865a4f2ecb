import ReleaseGate.Decimal.Shortest

/-!
# Numbers of a document

Integers that fit a word of 64 bits, signed or not, are kept; all other numbers have 53-bit
precision.
-/
namespace ReleaseGate.Json

open Decimal

inductive Number where
  | whole (n : Int)
  | real (x : Binary64)
deriving DecidableEq, Repr

/-- A number as it is spelled: digits from the left, the fraction empty if there is no point, and
the exponent with its sign. -/
structure Literal where
  negative : Bool
  whole : List Nat
  fraction : List Nat
  exponent : Option (Bool × List Nat)
deriving DecidableEq, Repr

def maxWord : Nat := UInt64.size - 1

/-- Appends digits to a significand while it fits a word; the second part is how many were left. -/
def gather : Nat → List Nat → Nat × Nat
  | significand, [] => (significand, 0)
  | significand, d :: digits =>
    if significand * 10 + d ≤ maxWord then gather (significand * 10 + d) digits
    else (significand, digits.length + 1)

def digitsValue (digits : List Nat) : Nat :=
  digits.foldl (fun n d => n * 10 + d) 0

/-- The nearest number to `10 ^ n`, for `n` up to 308. -/
def powerOfTen (n : Nat) : Binary64 :=
  (Binary64.ofNat? (Nat.pow 10 n)).getD .zero

/-- Scales by a power of ten in steps of at most `10 ^ 308`, each of which rounds; `none` if the
result is too great. Below the smallest power everything vanishes within the given number of
steps. -/
def scale (x : Binary64) (exponent : Int) : Nat → Option Binary64
  | 0 => some .zero
  | steps + 1 =>
    if x.mantissa = 0 then some x
    else if 308 < exponent then none
    else if 0 ≤ exponent then x.mul (powerOfTen exponent.toNat)
    else if -308 ≤ exponent then x.div (powerOfTen (-exponent).toNat)
    else do scale (← x.div (powerOfTen 308)) (exponent + 308) steps

def Literal.isInteger (l : Literal) : Bool :=
  l.fraction.isEmpty && l.exponent.isNone

/-- Exponents are read as 32-bit integers with a sign; greater ones scale beyond every number. -/
def exponentLimit : Nat := 1 <<< 31

/-- A significand of 53 bits, scaled once: not always the number nearest to the literal. -/
def Literal.toReal? (l : Literal) : Option Binary64 := do
  let (head, dropped) := gather 0 l.whole
  let (significand, unread) := gather head l.fraction
  let point : Int := dropped - (l.fraction.length - unread : Nat)
  let magnitude ← match l.exponent with
    | none => scale (← Binary64.ofNat? significand) point 4
    | some (negative, digits) =>
      let e := digitsValue digits
      if exponentLimit ≤ e then if significand = 0 ∨ negative then some .zero else none
      else scale (← Binary64.ofNat? significand) (if negative then point - e else point + e) 4
  pure (magnitude.withSign l.negative)

/-- The number that a literal stands for; `none` if it is beyond the greatest one. Negative zero is
not an integer. -/
def Literal.toNumber? (l : Literal) : Option Number :=
  let (n, dropped) := gather 0 l.whole
  if l.isInteger && dropped == 0 && !l.negative then some (.whole n)
  else if l.isInteger && dropped == 0 && n != 0 && n ≤ 1 <<< 63 then some (.whole (-n))
  else l.toReal?.map .real

def natDigits (n : Nat) : List Char :=
  Nat.toDigits 10 n

def intDigits (n : Int) : List Char :=
  if n < 0 then '-' :: natDigits n.natAbs else natDigits n.natAbs

/-- Plain from `0.00001` to below `10 ^ 16`, with at least one digit on each side of the point;
otherwise one digit before the point, and a signed exponent. -/
def layout (d : Scientific) : List Char :=
  let digits := natDigits d.digits
  let lead : Int := d.exponent + digits.length - 1
  if d.digits = 0 then ['0', '.', '0']
  else if 0 ≤ lead ∧ lead < 16 then
    let before := lead.toNat + 1
    if digits.length ≤ before then
      digits ++ List.replicate (before - digits.length) '0' ++ ['.', '0']
    else digits.take before ++ '.' :: digits.drop before
  else if -5 ≤ lead ∧ lead < 0 then
    '0' :: '.' :: (List.replicate (-lead - 1).toNat '0' ++ digits)
  else
    let mantissa := match digits with
      | [] | [_] => digits
      | first :: rest => first :: '.' :: rest
    mantissa ++ 'e' :: (if lead < 0 then '-' else '+') :: natDigits lead.natAbs

def realText (x : Binary64) : List Char :=
  if x.negative then '-' :: layout (shortest x) else layout (shortest x)

def Number.text : Number → List Char
  | .whole n => intDigits n
  | .real x => realText x

end ReleaseGate.Json
