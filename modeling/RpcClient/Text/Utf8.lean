import RpcClient.Bytes

/-!
UTF-8. Bytes are scanned from the left into characters and flaws; strict reading stops at the first
flaw and reports where it stands, lenient reading puts U+FFFD in the place of each.
-/
namespace RpcClient.Utf8

/-- Why bytes are not text, with the number of well-formed bytes in front of the flaw. -/
inductive Flaw where
  /-- `length` bytes from `index` on can start no character. -/
  | invalid (index length : Nat)
  /-- The bytes end inside the character that starts at `index`. -/
  | incomplete (index : Nat)
  deriving DecidableEq, Repr, Inhabited

def Flaw.message : Flaw → String
  | .invalid index length => s!"invalid utf-8 sequence of {length} bytes from index {index}"
  | .incomplete index => s!"incomplete utf-8 byte sequence from index {index}"

inductive Piece where
  | char (c : Char)
  /-- This many bytes start no character. -/
  | invalid (length : Nat)
  /-- This many bytes start a character and the input ends. -/
  | cut (length : Nat)
  deriving DecidableEq, Repr, Inhabited

/-- The number of input bytes that a piece stands for. -/
def Piece.length : Piece → Nat
  | .char c => c.utf8Size
  | .invalid length => length
  | .cut length => length

def isTail (b : UInt8) : Bool :=
  0x80 ≤ b && b < 0xc0

/-- The second bytes that may follow `b`, the first of three. Overlong forms and surrogates have
none. -/
def isSecondOfThree (b c : UInt8) : Bool :=
  if b == 0xe0 then 0xa0 ≤ c && c < 0xc0
  else if b == 0xed then 0x80 ≤ c && c < 0xa0
  else isTail c

/-- The second bytes that may follow `b`, the first of four. Overlong forms and numbers above
U+10FFFF have none. -/
def isSecondOfFour (b c : UInt8) : Bool :=
  if b == 0xf0 then 0x90 ≤ c && c < 0xc0
  else if b == 0xf4 then 0x80 ≤ c && c < 0x90
  else isTail c

def charOfTwo (b c : UInt8) : Char :=
  Char.ofNat ((b.toNat - 0xc0) * 64 + (c.toNat - 0x80))

def charOfThree (b c d : UInt8) : Char :=
  Char.ofNat (((b.toNat - 0xe0) * 64 + (c.toNat - 0x80)) * 64 + (d.toNat - 0x80))

def charOfFour (b c d e : UInt8) : Char :=
  Char.ofNat
    ((((b.toNat - 0xf0) * 64 + (c.toNat - 0x80)) * 64 + (d.toNat - 0x80)) * 64 + (e.toNat - 0x80))

/-- The pieces of `bytes`, after those collected in `done` (newest first). A flaw takes the longest
start of a character and no more. -/
def scanAfter (done : List Piece) : Bytes → List Piece
  | [] => done.reverse
  | b :: more =>
    if b < 0x80 then scanAfter (.char (Char.ofNat b.toNat) :: done) more
    else if b < 0xc2 then scanAfter (.invalid 1 :: done) more
    else if b < 0xe0 then
      match more with
      | [] => (Piece.cut 1 :: done).reverse
      | c :: more =>
        if isTail c then scanAfter (.char (charOfTwo b c) :: done) more
        else scanAfter (.invalid 1 :: done) (c :: more)
    else if b < 0xf0 then
      match more with
      | [] => (Piece.cut 1 :: done).reverse
      | c :: more =>
        if isSecondOfThree b c then
          match more with
          | [] => (Piece.cut 2 :: done).reverse
          | d :: more =>
            if isTail d then scanAfter (.char (charOfThree b c d) :: done) more
            else scanAfter (.invalid 2 :: done) (d :: more)
        else scanAfter (.invalid 1 :: done) (c :: more)
    else if b < 0xf5 then
      match more with
      | [] => (Piece.cut 1 :: done).reverse
      | c :: more =>
        if isSecondOfFour b c then
          match more with
          | [] => (Piece.cut 2 :: done).reverse
          | d :: more =>
            if isTail d then
              match more with
              | [] => (Piece.cut 3 :: done).reverse
              | e :: more =>
                if isTail e then scanAfter (.char (charOfFour b c d e) :: done) more
                else scanAfter (.invalid 3 :: done) (e :: more)
            else scanAfter (.invalid 2 :: done) (d :: more)
        else scanAfter (.invalid 1 :: done) (c :: more)
    else scanAfter (.invalid 1 :: done) more

def scan (bytes : Bytes) : List Piece :=
  scanAfter [] bytes

/-- Joins scanned characters, `index` bytes into the input and after those in `done` (newest
first), up to the first flaw. -/
def joinAfter (index : Nat) (done : List Char) : List Piece → Except Flaw (List Char)
  | [] => .ok done.reverse
  | .char c :: more => joinAfter (index + c.utf8Size) (c :: done) more
  | .invalid length :: _ => .error (.invalid index length)
  | .cut _ :: _ => .error (.incomplete index)

/-- The characters of `bytes`, or the first flaw. -/
def decodeChars (bytes : Bytes) : Except Flaw (List Char) :=
  joinAfter 0 [] (scan bytes)

/-- The text of `bytes`, or the first flaw. -/
def decode (bytes : Bytes) : Except Flaw String :=
  (decodeChars bytes).map String.ofList

/-- The text of `bytes` with U+FFFD for each flaw. -/
def decodeLenient (bytes : Bytes) : String :=
  String.ofList <| (scan bytes).map fun
    | .char c => c
    | _ => '\uFFFD'

def encodeChars (chars : List Char) : Bytes :=
  chars.flatMap String.utf8EncodeChar

def encode (text : String) : Bytes :=
  encodeChars text.toList

end RpcClient.Utf8
