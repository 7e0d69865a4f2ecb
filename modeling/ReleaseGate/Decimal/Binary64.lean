/-!
# Numbers of 53-bit precision

Finite binary floating-point numbers and the arithmetic that rounds each exact result to the nearest
of them, a tie going to the even mantissa. Everything is computed in naturals.
-/
namespace ReleaseGate.Decimal

/-- `mantissa * 2 ^ exponent`, with the sign kept apart so that zero has two forms. The mantissa is
below `2 ^ 53`, and at least `2 ^ 52` unless the exponent is the least one, `-1074`. -/
structure Binary64 where
  negative : Bool
  mantissa : Nat
  exponent : Int
deriving DecidableEq, Repr

namespace Binary64

def zero : Binary64 := ⟨false, 0, -1074⟩

instance : Inhabited Binary64 := ⟨zero⟩

def neg (x : Binary64) : Binary64 :=
  { x with negative := !x.negative }

/-- The magnitude is `numerator / denominator`. -/
def numerator (x : Binary64) : Nat :=
  x.mantissa <<< x.exponent.toNat

def denominator (x : Binary64) : Nat :=
  1 <<< (-x.exponent).toNat

/-- The natural nearest to a quotient, the even one of two. -/
def divideEven (num den : Nat) : Nat :=
  let floor := num / den
  let rest := 2 * (num % den)
  if rest < den ∨ (rest = den ∧ floor % 2 = 0) then floor else floor + 1

/-- The number nearest to a quotient; `none` if that is beyond the greatest one. -/
def ofQuotient (num den : Nat) : Option Binary64 :=
  if num = 0 then some zero
  else
    let low : Int := max (-1074) ((num.log2 : Int) - den.log2 - 53)
    let exponent := if num <<< (-low).toNat / den <<< low.toNat < 1 <<< 53 then low else low + 1
    let mantissa := divideEven (num <<< (-exponent).toNat) (den <<< exponent.toNat)
    let x : Binary64 :=
      if mantissa = 1 <<< 53 then ⟨false, 1 <<< 52, exponent + 1⟩ else ⟨false, mantissa, exponent⟩
    if 971 < x.exponent then none else some x

def ofNat? (n : Nat) : Option Binary64 :=
  ofQuotient n 1

def withSign (negative : Bool) (x : Binary64) : Binary64 :=
  { x with negative }

def mul (x y : Binary64) : Option Binary64 :=
  (ofQuotient (x.numerator * y.numerator) (x.denominator * y.denominator)).map
    (withSign (x.negative != y.negative))

/-- The divisor is not zero. -/
def div (x y : Binary64) : Option Binary64 :=
  (ofQuotient (x.numerator * y.denominator) (x.denominator * y.numerator)).map
    (withSign (x.negative != y.negative))

/-- The natural nearest to the magnitude, the greater one of two. -/
def roundToNat (x : Binary64) : Nat :=
  (2 * x.numerator + x.denominator) / (2 * x.denominator)

end Binary64

end ReleaseGate.Decimal
