/-!
Finite floating point numbers of 64 bits, with exact arithmetic on whole numbers behind them.

A result that falls between two such numbers goes to the nearer one, and from the middle to the one
with the even mantissa. A result that would be beyond the greatest one is none.
-/
namespace RpcClient

/-- A finite floating point number: `mantissa` times two to the power `scale - 1074`. A mantissa
below half of the limit of mantissas has the scale zero, so that no number has two forms. -/
structure Double where
  negative : Bool
  mantissa : Nat
  scale : Nat
  deriving DecidableEq, Repr, Inhabited

namespace Double

def zero (negative : Bool) : Double :=
  ⟨negative, 0, 0⟩

def isZero (x : Double) : Bool :=
  x.mantissa = 0

/-- The number with the sign of the product of `x` and minus one if `negative` holds. -/
def withSign (negative : Bool) (x : Double) : Double :=
  { x with negative := x.negative != negative }

/-- The least number that is no mantissa: two to the power 53. -/
def mantissaLimit : Nat := 0x20000000000000

def maxScale : Nat := 2045

/-- How many of the least positive number make one. -/
def unitsOfOne : Nat := Nat.pow 2 1074

/-- How many of the least positive number make a number, apart from its sign. -/
def units (x : Double) : Nat :=
  x.mantissa * Nat.pow 2 x.scale

/-- A quotient rounded to the nearest whole number, and from the middle to the even one. -/
def nearestQuotient (num den : Nat) : Nat :=
  let quotient := num / den
  let twice := 2 * (num % den)
  if twice < den ∨ (twice = den ∧ quotient % 2 = 0) then quotient else quotient + 1

/-- The number nearest to `num / den` of the least positive number. -/
def ofUnits? (negative : Bool) (num den : Nat) : Option Double :=
  if den = 0 then none
  else
    let scale := Nat.log2 (num / den) - 52
    let mantissa := nearestQuotient num (den * Nat.pow 2 scale)
    let rounded : Double :=
      if mantissa = mantissaLimit then ⟨negative, mantissa / 2, scale + 1⟩
      else ⟨negative, mantissa, scale⟩
    if rounded.scale ≤ maxScale then some rounded else none

def ofNat? (n : Nat) : Option Double :=
  ofUnits? false (n * unitsOfOne) 1

def mul? (x y : Double) : Option Double :=
  ofUnits? (x.negative != y.negative) (x.units * y.units) unitsOfOne

/-- The quotient of two numbers. There is none by zero. -/
def div? (x y : Double) : Option Double :=
  ofUnits? (x.negative != y.negative) (x.units * unitsOfOne) y.units

/-- The number nearest to `digits` times ten to the power `exponent`. Exponents far beyond those of
numbers need no arithmetic. -/
def ofDecimal? (negative : Bool) (digits : Nat) (exponent : Int) : Option Double :=
  if digits = 0 then some (zero negative)
  else if 400 < exponent then none
  else if 0 ≤ exponent then
    ofUnits? negative (digits * Nat.pow 10 exponent.toNat * unitsOfOne) 1
  else if (Nat.log2 digits : Int) + 3 * exponent < -1080 then some (zero negative)
  else ofUnits? negative (digits * unitsOfOne) (Nat.pow 10 (-exponent).toNat)

end Double
end RpcClient
