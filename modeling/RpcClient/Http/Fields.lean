import RpcClient.Http.Text

/-!
The values of header fields, as far as they decide how long a message is and whether its connection
stays open.
-/
namespace RpcClient.Http

def isLineBlank (b : UInt8) : Bool :=
  b == 0x20 || b == 0x09

def trimLine (line : Bytes) : Bytes :=
  ((line.dropWhile isLineBlank).reverse.dropWhile isLineBlank).reverse

def isPlain (b : UInt8) : Bool :=
  (0x20 ≤ b && b < 0x7f) || b == 0x09

/-- A non-empty list of decimal digits as a number of 64 bits. -/
def digits? (bytes : Bytes) : Option Nat :=
  if !bytes.isEmpty && bytes.all fun b => 0x30 ≤ b && b ≤ 0x39 then
    let number := bytes.foldl (fun high b => high * 10 + (b.toNat - 0x30)) 0
    if number < UInt64.size then some number else none
  else none

def listItems (value : Bytes) : List Bytes :=
  (value.splitOnP (· == 0x2c)).map trimLine

/-- The options that a value names, in small letters. A value beyond ASCII names none. -/
def optionsOf (value : Bytes) : List String :=
  if value.all isPlain then (listItems value).map fun item => lowerCase (Utf8.decodeLenient item)
  else []

def namesOption (option : String) (value : Bytes) : Bool :=
  (optionsOf value).contains option

def endsInOption (option : String) (values : List Bytes) : Bool :=
  (values.getLast?.bind fun value => (optionsOf value).getLast?) == some option

/-- The one number that all values give. -/
def sharedLength? (values : List Bytes) : Option Nat :=
  match (values.flatMap listItems).mapM digits? with
  | some (length :: lengths) => if lengths.all (· == length) then some length else none
  | _ => none

inductive Version where
  | oneZero
  | oneOne
  deriving DecidableEq, Repr, Inhabited

def Version.name : Version → String
  | .oneZero => "HTTP/1.0"
  | .oneOne => "HTTP/1.1"

/-- Whether a message of a version leaves its connection open, by the values of its connection
headers. What asks to close it wins over what asks to keep it. -/
def Version.staysOpen (version : Version) (values : List Bytes) : Bool :=
  !values.any (namesOption "close") &&
    (version == .oneOne || values.any (namesOption "keep-alive"))

end RpcClient.Http
