import RpcClient.Text.Utf8

/-!
What HTTP/1.1 admits as method, header name, header value and request target.
-/
namespace RpcClient.Http

def isTokenByte (b : UInt8) : Bool :=
  (0x30 ≤ b && b ≤ 0x39) || (0x41 ≤ b && b ≤ 0x5a) || (0x61 ≤ b && b ≤ 0x7a) ||
    "!#$%&'*+-.^_`|~".toList.any (·.toNat == b.toNat)

def isToken (text : String) : Bool :=
  let bytes := Utf8.encode text
  !bytes.isEmpty && bytes.all isTokenByte

def maxHeaderName : Nat := 65535

def isHeaderName (text : String) : Bool :=
  isToken text && text.utf8ByteSize ≤ maxHeaderName

/-- Whether a byte may stand in a header value: all but controls, of which the tabulator is
allowed. -/
def isValueByte (b : UInt8) : Bool :=
  (0x20 ≤ b && b != 0x7f) || b == 0x09

def isHeaderValue (text : String) : Bool :=
  (Utf8.encode text).all isValueByte

def lowerCase (text : String) : String :=
  text.map Char.toLower

inductive TargetFlaw where
  | invalidCharacter
  | tooLong
  deriving DecidableEq, Repr, Inhabited

def TargetFlaw.message : TargetFlaw → String
  | .invalidCharacter => "invalid uri character"
  | .tooLong => "uri too long"

/-- Whether a byte may stand in a path. Beyond the bytes that need no escape, quotes, braces and
everything beyond ASCII are let through. -/
def isPathByte (b : UInt8) : Bool :=
  b == 0x21 || b == 0x22 || (0x24 ≤ b && b ≤ 0x3b) || b == 0x3d || (0x40 ≤ b && b ≤ 0x5f) ||
    (0x61 ≤ b && b != 0x7f)

def isQueryByte (b : UInt8) : Bool :=
  b == 0x21 || (0x24 ≤ b && b ≤ 0x3b) || b == 0x3d || (0x3f ≤ b && b != 0x7f)

def maxTarget : Nat := 65534

/-- Reads a path and a query as a request target. A fragment, from the first `#` on, is left out and
may hold anything. -/
def target (text : String) : Except TargetFlaw String :=
  let bytes := Utf8.encode text
  if bytes.length > maxTarget then .error .tooLong
  else
    let bytes := bytes.takeWhile (· != 0x23)
    let path := bytes.takeWhile (· != 0x3f)
    let query := (bytes.drop path.length).drop 1
    if path.all isPathByte && query.all isQueryByte then .ok (Utf8.decodeLenient bytes)
    else .error .invalidCharacter

end RpcClient.Http
