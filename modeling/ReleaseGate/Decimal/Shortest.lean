import ReleaseGate.Decimal.Binary64

/-!
# Shortest decimals

The decimal with the fewest digits among those that are nearer to a given number than to any other
one, and of these the closest to it.
-/
namespace ReleaseGate.Decimal

/-- The decimal `digits * 10 ^ exponent`. -/
structure Scientific where
  digits : Nat
  exponent : Int
deriving DecidableEq, Repr

/-- Compares `a * 10 ^ i` with `b * 2 ^ j`. -/
def compareScaled (a : Nat) (i : Int) (b : Nat) (j : Int) : Ordering :=
  compare (a * Nat.pow 10 i.toNat <<< (-j).toNat) (b * Nat.pow 10 (-i).toNat <<< j.toNat)

/-- Whether a decimal is rounded to the magnitude of `x`. The gap below a power of two is half the
gap above it, and the midpoints count if the mantissa is even. -/
def readsBack (x : Binary64) (d : Scientific) : Bool :=
  let narrow := x.mantissa == 1 <<< 52 && -1074 < x.exponent
  let low := if narrow then 4 * x.mantissa - 1 else 4 * x.mantissa - 2
  let fromLow := compareScaled d.digits d.exponent low (x.exponent - 2)
  let toHigh := compareScaled d.digits d.exponent (4 * x.mantissa + 2) (x.exponent - 2)
  let even := x.mantissa % 2 == 0
  (fromLow == .gt || (even && fromLow == .eq)) && (toHigh == .lt || (even && toHigh == .eq))

/-- The least `k` with `x < 10 ^ k`. The binary logarithm gives it to within two. -/
def magnitude (x : Binary64) : Int :=
  let bits : Int := x.mantissa.log2 + x.exponent
  let guess := bits * 30103 / 100000 - 1
  let fits (k : Int) : Bool := compareScaled 1 k x.mantissa x.exponent == .gt
  if fits guess then guess
  else if fits (guess + 1) then guess + 1
  else if fits (guess + 2) then guess + 2
  else guess + 3

/-- The best decimal on the grid of `10 ^ exponent`, if one of it reads back. -/
def nearestOnGrid (x : Binary64) (exponent : Int) : Option Scientific :=
  let num := x.numerator * Nat.pow 10 (-exponent).toNat
  let den := x.denominator * Nat.pow 10 exponent.toNat
  let below : Scientific := ⟨num / den, exponent⟩
  let above : Scientific := ⟨num / den + 1, exponent⟩
  let rest := 2 * (num % den)
  let preferBelow := rest < den || (rest == den && below.digits % 2 == 0)
  match readsBack x below, readsBack x above with
  | true, true => some (if preferBelow then below else above)
  | true, false => some below
  | false, true => some above
  | false, false => none

/-- Grids from coarse to fine; seventeen digits tell any two numbers apart. -/
def shortestFrom (x : Binary64) (k : Int) : Nat → Scientific
  | 0 => ⟨x.numerator * Nat.pow 10 1074 / x.denominator, -1074⟩
  | left + 1 => (nearestOnGrid x (k - (17 - left))).getD (shortestFrom x k left)

/-- Moves trailing zeros of the digits into the exponent, at most `limit` of them. -/
def Scientific.trim (d : Scientific) : Nat → Scientific
  | 0 => d
  | limit + 1 =>
    if d.digits ≠ 0 ∧ d.digits % 10 = 0 then Scientific.trim ⟨d.digits / 10, d.exponent + 1⟩ limit
    else d

/-- Of the magnitude; zero has the digit zero. -/
def shortest (x : Binary64) : Scientific :=
  if x.mantissa = 0 then ⟨0, 0⟩ else (shortestFrom x (magnitude x) 17).trim 17

end ReleaseGate.Decimal
