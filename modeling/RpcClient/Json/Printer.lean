import RpcClient.Double.Shortest
import RpcClient.Json.Value
import RpcClient.Text.Number

/-!
Writing JSON in ASCII without blanks.
-/
namespace RpcClient.Json

def escapeUnit (n : Nat) : List Char :=
  ['\\', 'u', Number.hexDigit (n / 4096 % 16), Number.hexDigit (n / 256 % 16),
    Number.hexDigit (n / 16 % 16), Number.hexDigit (n % 16)]

/-- A character of a string. Quotes, backslashes, controls and everything beyond ASCII are escaped. -/
def escapeChar (c : Char) : List Char :=
  let n := c.toNat
  if c = '"' then ['\\', '"']
  else if c = '\\' then ['\\', '\\']
  else if 0x20 ≤ n ∧ n < 0x7f then [c]
  else if n < 0x10000 then escapeUnit n
  else escapeUnit (0xd800 + (n - 0x10000) / 1024) ++ escapeUnit (0xdc00 + (n - 0x10000) % 1024)

def renderString (s : String) : String :=
  "\"" ++ String.ofList (s.toList.flatMap escapeChar) ++ "\""

/-- A decimal: `digits` times ten to the power `exponent`. It has an exponent where the point would
be far from the digits, and else a point with a digit on either side. -/
def renderDecimal (digits : Nat) (exponent : Int) : List Char :=
  let text := Nat.toDigits 10 digits
  let point : Int := text.length + exponent
  if 0 ≤ exponent ∧ point ≤ 16 then text ++ List.replicate exponent.toNat '0' ++ ['.', '0']
  else if 0 < point ∧ point ≤ 16 then text.take point.toNat ++ '.' :: text.drop point.toNat
  else if -5 < point ∧ point ≤ 0 then '0' :: '.' :: List.replicate (-point).toNat '0' ++ text
  else
    let fraction := if text.length = 1 then [] else '.' :: text.drop 1
    text.take 1 ++ fraction ++ 'e' :: (toString (point - 1)).toList

/-- A number. One that is no integer has the fewest digits that tell it from all others. -/
def Number.render : Number → String
  | .int value => toString value
  | .float value =>
    let (digits, exponent) := value.shortest
    (if value.negative then "-" else "") ++ String.ofList (renderDecimal digits exponent)

def render : Json → String
  | .null => "null"
  | .bool value => if value then "true" else "false"
  | .number value => value.render
  | .string value => renderString value
  | .array items => "[" ++ ",".intercalate (renderItems items) ++ "]"
  | .object members => "\x7b" ++ ",".intercalate (renderMembers members) ++ "\x7d"
where
  renderItems : List Json → List String
    | [] => []
    | item :: items => render item :: renderItems items
  renderMembers : List (String × Json) → List String
    | [] => []
    | (key, value) :: members => (renderString key ++ ":" ++ render value) :: renderMembers members

end RpcClient.Json
