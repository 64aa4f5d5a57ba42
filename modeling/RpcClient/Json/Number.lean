import RpcClient.Json.Value
import RpcClient.Text.Number

/-!
The numbers that JSON texts give.

A number with a fraction or an exponent is made in steps, each of which is rounded: its digits as far
as they fit into 64 bits make a whole number, which a power of ten multiplies or divides. So it may
differ from the floating point number that is nearest to the text.
-/
namespace RpcClient.Json.Number

/-- Appends digits to a significand, up to the first that would take it beyond 64 bits. With it comes
the number of digits appended, counted on from `count`. -/
def appendDigits (significand count : Nat) : List Nat → Nat × Nat
  | [] => (significand, count)
  | digit :: digits =>
    let next := significand * 10 + digit
    if next < UInt64.size then appendDigits next (count + 1) digits else (significand, count)

/-- The greatest power of ten that is applied in one step. -/
def maxPower : Nat := 308

def power? (exponent : Nat) : Option Double :=
  Double.ofDecimal? false 1 exponent

/-- A significand of 64 bits times ten to the power `exponent`. Division by more than `maxPower` takes
two steps, and by more than twice that nothing remains. -/
def scale? (significand : Nat) (exponent : Int) : Option Double := do
  let x ← Double.ofNat? significand
  if x.isZero then return x
  else if maxPower < exponent then failure
  else if 0 ≤ exponent then x.mul? (← power? exponent.toNat)
  else if -maxPower ≤ exponent then x.div? (← power? (-exponent).toNat)
  else if -(2 * maxPower) ≤ exponent then
    (← x.div? (← power? maxPower)).div? (← power? ((-exponent).toNat - maxPower))
  else return .zero false

/-- The number with these digits in front of the point and behind it, times ten to the power
`exponent`. Digits that do not fit count by their places only, and in front of the point only. -/
def float? (negative : Bool) (whole fraction : List Nat) (exponent : Int) : Option Number := do
  let (significand, taken) := appendDigits 0 0 whole
  let (significand, places) := appendDigits significand 0 fraction
  let x ← scale? significand (exponent + (whole.length - taken : Nat) - places)
  return .float (x.withSign negative)

/-- The number with these digits and nothing else. A negative zero and what does not fit into 64 bits
is no integer. -/
def whole? (negative : Bool) (whole : List Nat) : Option Number :=
  let (significand, taken) := appendDigits 0 0 whole
  if taken < whole.length then float? negative whole [] 0
  else if !negative then some (.int significand)
  else if 0 < significand ∧ significand ≤ Number.signedLimit then some (.int (-significand))
  else float? negative whole [] 0

end RpcClient.Json.Number
