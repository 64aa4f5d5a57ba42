/-!
Numbers in text: digits of any base, whole numbers up to a limit, and bytes in hexadecimal.
-/
namespace RpcClient.Number

/-- How many numbers of 64 bits with sign are not negative. -/
def signedLimit : Nat := 0x8000000000000000

/-- Reads a decimal number below `limit`: at least one digit, optionally behind a plus sign. -/
def read? (limit : Nat) (text : String) : Option Nat :=
  match text.toList with
  | [] => none
  | '+' :: digits => readDigits? limit digits
  | digits => readDigits? limit digits
where
  /-- Reads a non-empty list of digits as a number below `limit`. -/
  readDigits? (limit : Nat) (digits : List Char) : Option Nat :=
    if digits.isEmpty then none else go limit 0 digits
  /-- Appends the digits to the number `high` while it stays below `limit`. -/
  go (limit high : Nat) : List Char → Option Nat
    | [] => some high
    | c :: more =>
      if c.isDigit then
        let next := high * 10 + (c.toNat - '0'.toNat)
        if next < limit then go limit next more else none
      else none

/-- The value of a digit in a base of at most sixteen. Letters may have either case. -/
def digitValue? (base : Nat) (c : Char) : Option Nat :=
  let value? :=
    if c.isDigit then some (c.toNat - '0'.toNat)
    else if 'a' ≤ c ∧ c ≤ 'f' then some (c.toNat - 'a'.toNat + 10)
    else if 'A' ≤ c ∧ c ≤ 'F' then some (c.toNat - 'A'.toNat + 10)
    else none
  value?.filter (· < base)

/-- The number with these digits, the highest one in front. -/
def ofDigits (base : Nat) (digits : List Nat) : Nat :=
  digits.foldl (fun high digit => high * base + digit) 0

def hexDigit (n : Nat) : Char :=
  if n < 10 then Char.ofNat ('0'.toNat + n) else Char.ofNat ('a'.toNat + (n - 10))

/-- A number in lower-case hexadecimal without leading zeros, behind `0x`. -/
def hex (n : Nat) : String :=
  "0x" ++ String.ofList (Nat.toDigits 16 n)

def hexByte (b : UInt8) : String :=
  "0x" ++ String.ofList [hexDigit (b.toNat / 16), hexDigit (b.toNat % 16)]

end RpcClient.Number
