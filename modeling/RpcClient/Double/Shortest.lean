import RpcClient.Double.Basic

/-!
Decimals for floating point numbers: the fewest digits that read back as the number, and of those
the nearest ones.
-/
namespace RpcClient.Double

/-- How many places behind the point the first digit of a number below one stands. -/
def leadingPlaces (x : Double) : Nat :=
  ((List.range 325).find? fun places => unitsOfOne ≤ x.units * Nat.pow 10 places).getD 324

/-- The exponent of the first digit of a number that is not zero. -/
def leadingExponent (x : Double) : Int :=
  if unitsOfOne ≤ x.units then (Nat.toDigits 10 (x.units / unitsOfOne)).length - 1
  else -x.leadingPlaces

/-- The multiple of ten to the power `exponent` that is nearest to a number, among the one below it
and the one above it that read back as the number. -/
def multiple? (x : Double) (exponent : Int) : Option Nat :=
  let num := x.units * Nat.pow 10 (-exponent).toNat
  let den := unitsOfOne * Nat.pow 10 exponent.toNat
  let below := num / den
  let readsBack (digits : Nat) : Bool := ofDecimal? x.negative digits exponent == some x
  match readsBack below, readsBack (below + 1) with
  | true, true => some (nearestQuotient num den)
  | true, false => some below
  | false, true => some (below + 1)
  | false, false => none

/-- A decimal without zeros behind its last digit other than zero, of which it drops at most
`fuel`. -/
def dropZeros : (fuel digits : Nat) → (exponent : Int) → Nat × Int
  | 0, digits, exponent => (digits, exponent)
  | fuel + 1, digits, exponent =>
    if digits % 10 = 0 then dropZeros fuel (digits / 10) (exponent + 1) else (digits, exponent)

def maxDigits : Nat := 17

/-- The shortest decimal that reads back as a number, apart from its sign: digits, and the power of
ten that a unit of the last one stands for. -/
def shortest (x : Double) : Nat × Int :=
  if x.isZero then (0, 0)
  else
    let first := x.leadingExponent
    let hit? := (List.range maxDigits).findSome? fun (places : Nat) =>
      let exponent := first - places
      (x.multiple? exponent).map fun digits => (digits, exponent)
    let (digits, exponent) := hit?.getD (0, 0)
    dropZeros maxDigits digits exponent

end RpcClient.Double
