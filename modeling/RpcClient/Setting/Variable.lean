import RpcClient.Setting.Interpolation
import RpcClient.Text.Blank
import RpcClient.Toml.Number
import RpcClient.Toml.Text

/-!
Settings that variables of the environment give. The name of such a variable says where its value
belongs, and the value is read as a number, a truth value, a list, a table or a text.
-/
namespace RpcClient.Variable

open Scan

/-- What the names of variables that are settings start with, in letters of either case. -/
def namePrefix : List Char := "tether_".toList

def isBlank (c : Char) : Bool :=
  c == ' ' || ('\t' ≤ c && c ≤ '\r' && c ≠ '\x0b')

/-- Whether a character stands between the parts of a value. -/
def isSeparator (c : Char) : Bool :=
  [',', '\x7b', '\x7d', '[', ']'].contains c

def blanks : Scan Unit :=
  discard (takeWhile isBlank)

/-- Reads the digits of a number that may have a point but needs a digit. -/
def pointDigits : Scan (List Nat × List Nat) := do
  let whole ← many (Toml.digit 10)
  skip '.'
  let places ← many (Toml.digit 10)
  guard !(whole.isEmpty && places.isEmpty)
  return (whole, places)

/-- Reads a number with a point. One above the greatest floating point number is not finite. -/
def float : Scan Setting := do
  let negative ← Toml.sign
  let (whole, places) ← pointDigits
  let power := (← maybe do
    discard (one fun c => c == 'e' || c == 'E')
    let down ← Toml.sign
    let n := Number.ofDigits 10 (← oneOrMore (Toml.digit 10))
    return if down then -(n : Int) else n).getD 0
  let digits := Number.ofDigits 10 (whole ++ places)
  return .float (Double.ofDecimal? negative digits (power - places.length))

/-- Reads a whole number of 64 bits. Only negative ones count as numbers with sign. -/
def whole : Scan Setting := do
  let negative ← Toml.sign
  let n := Number.ofDigits 10 (← oneOrMore (Toml.digit 10))
  if negative then
    guard (n ≤ Number.signedLimit)
    return .signed (-n)
  else
    guard (n < UInt64.size)
    return .unsigned n

/-- A number, or else the text as it is. -/
def plain (text : String) : Setting :=
  ((float <|> whole).readAll text).getD (.text text)

/-- Reads the items of a list or a table between brackets. There may be a comma behind the last
one. -/
def bracketed {α : Type} (opening closing : Char) (item : Scan α) : Scan (List α) := do
  skip opening
  itemsWithin ((← get).length + 1)
where
  itemsWithin : (fuel : Nat) → Scan (List α)
    | 0 => failure
    | fuel + 1 => do
      if (← maybe (skip closing)).isSome then return []
      let first ← item
      if (← maybe (skip ',')).isSome then return first :: (← itemsWithin fuel)
      skip closing
      return [first]

/-- The characters that fit whole into the first `size` bytes of a text. -/
def takeBytes (size : Nat) : List Char → List Char
  | [] => []
  | c :: rest => if c.utf8Size ≤ size then c :: takeBytes (size - c.utf8Size) rest else []

/-- Reads a text between double quotes. Where it holds an escape, only so many bytes count of what
stands in front of the first one as that has characters. -/
def quoted : Scan String := do
  skip '"'
  let front ← many (one Toml.isBasic)
  let rest ← many Toml.basicChar
  skip '"'
  return String.ofList (if rest.isEmpty then front else takeBytes front.length front ++ rest)

def entry (value : Scan Setting) : Scan (String × Setting) := do
  blanks
  let key ← if (← peek?) = some '"' then quoted else Toml.bareKey
  blanks
  skip '='
  return (key, ← value)

/-- Reads a value with room for this many levels of lists and tables. -/
def value : (room : Nat) → Scan Setting
  | 0 => failure
  | room + 1 => do
    blanks
    let setting ← match ← peek? with
      | some '\x7b' => Setting.ofEntries <$> bracketed '\x7b' '\x7d' (entry (value room))
      | some '[' => Setting.list <$> bracketed '[' ']' (value room)
      | some '"' => Setting.text <$> quoted
      | some '\'' => do
        skip '\''
        let c ← any
        skip '\''
        pure (.char c)
      | _ => Toml.bool <|> do
        let chars ← takeWhile (!isSeparator ·)
        return plain (Blank.trim (String.ofList chars))
    blanks
    return setting

/-- The setting that a text stands for. A text that is no value as a whole stands for itself. -/
def parse (text : String) : Setting :=
  ((value (text.length + 1)).readAll text).getD (.text text)

def splitName : List Char → List (List Char)
  | [] => [[]]
  | '_' :: '_' :: rest => [] :: splitName rest
  | c :: rest =>
    match splitName rest with
    | [] => [[c]]
    | part :: parts => (c :: part) :: parts

/-- Where the value of a variable belongs among the settings, if it does. Blanks around its name count
for nothing, and neither do those around what follows the prefix. -/
def path? (name : String) : Option (List String) := do
  let chars := (Blank.trim name).toList.map Char.toLower
  guard (namePrefix.isPrefixOf chars)
  let name := (Blank.trim (String.ofList (chars.drop namePrefix.length))).toList
  let parts := (splitName name).flatMap fun part => part.splitOn '.'
  guard !(parts.any List.isEmpty)
  return parts.map String.ofList

def nest (path : List String) (setting : Setting) : Setting :=
  path.foldr (fun key setting => .table [(key, setting)]) setting

/-- The settings that the environment gives. -/
def settings (env : Environment) : Setting :=
  env.foldl (fun settings (name, text) =>
    match path? name with
    | none => settings
    | some path => settings.overlay (nest path (parse text))) (.table [])

end RpcClient.Variable
