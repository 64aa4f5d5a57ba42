import RpcClient.Setting.Basic
import RpcClient.Toml.Layout
import RpcClient.Text.Number

/-!
Numbers of TOML.
-/
namespace RpcClient.Toml

open Scan

def digit (base : Nat) : Scan Nat := do
  match Number.digitValue? base (← any) with
  | some value => return value
  | none => failure

/-- Reads digits. There may be an underscore between two of them. -/
def digits (base : Nat) : Scan (List Nat) := do
  let first ← digit base
  let rest ← many (digit base <|> (do skip '_'; digit base))
  return first :: rest

/-- Reads the digits of a whole number, which has no zero in front of other digits. -/
def wholeDigits : Scan (List Nat) := do
  if (← peek?) = some '0' then
    skip '0'
    return [0]
  else
    digits 10

def sign : Scan Bool := do
  return (← maybe (one fun c => c == '+' || c == '-')) = some '-'

/-- Reads a number in a base that is not ten. Such numbers have no sign. -/
def based (mark : String) (base : Nat) : Scan Int := do
  skipText mark
  return Number.ofDigits base (← digits base)

def decimal : Scan Int := do
  let negative ← sign
  let n := Number.ofDigits 10 (← wholeDigits)
  return if negative then -n else n

def integer : Scan Setting := do
  let n ← based "0x" 16 <|> based "0o" 8 <|> based "0b" 2 <|> decimal
  guard (-Number.signedLimit ≤ n ∧ n < Number.signedLimit)
  return .signed n

def exponent : Scan Int := do
  discard (one fun c => c == 'e' || c == 'E')
  let negative ← sign
  let n := Number.ofDigits 10 (← digits 10)
  return if negative then -n else n

def fraction : Scan (List Nat) := do
  skip '.'
  digits 10

/-- The floating point number nearest to `digits` times ten to the power `exponent`. Above the
greatest one there is none, and below the least one it is not finite. -/
def float? (negative : Bool) (digits : Nat) (exponent : Int) : Option Setting :=
  match Double.ofDecimal? negative digits exponent with
  | some value => some (.float (some value))
  | none => if negative then some (.float none) else none

def decimalFloat : Scan Setting := do
  let negative ← sign
  let whole ← wholeDigits
  let places ← maybe fraction
  let power ← if places.isNone then some <$> exponent else maybe exponent
  let digits := Number.ofDigits 10 (whole ++ places.getD [])
  match float? negative digits (power.getD 0 - (places.getD []).length) with
  | some value => return value
  | none => failure

/-- Reads a floating point number that is not finite. -/
def endlessFloat : Scan Setting := do
  discard sign
  skipText "inf" <|> skipText "nan"
  return .float none

def float : Scan Setting :=
  decimalFloat <|> endlessFloat

def bool : Scan Setting :=
  (do skipText "true"; return .bool true) <|> (do skipText "false"; return .bool false)

end RpcClient.Toml
