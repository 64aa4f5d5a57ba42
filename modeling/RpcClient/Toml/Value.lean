import RpcClient.Toml.Moment
import RpcClient.Toml.Table
import RpcClient.Toml.Text

/-!
Values of TOML.
-/
namespace RpcClient.Toml

open Scan

/-- Reads a value that holds no others. -/
def scalar : Scan Setting :=
  Setting.text <$> text <|> bool <|> Moment.setting <$> moment <|> float <|> integer

/-- Reads a list. It may extend over several lines, and there may be a comma behind the last item. -/
def list (value : Scan Setting) : Scan Setting := do
  skip '['
  let items ← separated (skip ',') do
    space
    let item ← value
    space
    return item
  if !items.isEmpty then discard (maybe (skip ','))
  space
  skip ']'
  return .list items

def pair (value : Scan Setting) : Scan (List String × Setting) := do
  let key ← key
  skip '='
  blanks
  return (key, ← value)

def inlineTable (value : Scan Setting) : Scan Setting := do
  skip '{'
  let pairs ← separated (skip ',') do
    let pair ← pair value
    blanks
    return pair
  blanks
  skip '}'
  match Entries.insertAll pairs [] with
  | some entries => return entries.setting
  | none => failure

/-- Reads a value with room for this many levels of lists and inline tables. -/
def value : (room : Nat) → Scan Setting
  | 0 => scalar
  | room + 1 => list (value room) <|> inlineTable (value room) <|> scalar

end RpcClient.Toml
