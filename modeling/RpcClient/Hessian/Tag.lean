import RpcClient.Bytes

/-!
The first byte of a Hessian value. It fixes the kind of the value and may already hold its length
or its leading digits.
-/
namespace RpcClient.Hessian

inductive Tag where
  | null
  | boolean
  /-- A whole string of `length` characters. -/
  | shortString (length : Nat)
  /-- A whole string; the next byte is the low half of its length. -/
  | mediumString (high : Nat)
  /-- A whole string, or the last part of one, with a length of two bytes. -/
  | string
  /-- A part of a string with a length of two bytes; another part follows. -/
  | stringChunk
  | tinyInt (value : Int)
  /-- An integer with one more byte. -/
  | shortInt (high : Int)
  /-- An integer with two more bytes. -/
  | mediumInt (high : Int)
  | int
  /-- A long, double or date with this many more bytes. -/
  | scalar (width : Nat)
  | shortBinary (length : Nat)
  | mediumBinary (high : Nat)
  | binary
  | binaryChunk
  | typedList
  | typedFixedList
  | list
  | fixedList
  | shortTypedList (length : Nat)
  | shortList (length : Nat)
  | map
  | typedMap
  | classDefinition
  | object
  | shortObject (classNumber : Nat)
  | reference
  | endMark
  | unassigned
  deriving DecidableEq, Repr

def Tag.ofByte (b : UInt8) : Tag :=
  let n := b.toNat
  if n < 0x20 then .shortString n
  else if n < 0x30 then .shortBinary (n - 0x20)
  else if n < 0x34 then .mediumString (n - 0x30)
  else if n < 0x38 then .mediumBinary (n - 0x34)
  else if n < 0x40 then .scalar 2
  else if n < 0x60 then
    match n with
    | 0x41 => .binaryChunk
    | 0x42 => .binary
    | 0x43 => .classDefinition
    | 0x44 => .scalar 8
    | 0x46 => .boolean
    | 0x48 => .map
    | 0x49 => .int
    | 0x4a => .scalar 8
    | 0x4b => .scalar 4
    | 0x4c => .scalar 8
    | 0x4d => .typedMap
    | 0x4e => .null
    | 0x4f => .object
    | 0x51 => .reference
    | 0x52 => .stringChunk
    | 0x53 => .string
    | 0x54 => .boolean
    | 0x55 => .typedList
    | 0x56 => .typedFixedList
    | 0x57 => .list
    | 0x58 => .fixedList
    | 0x59 => .scalar 4
    | 0x5a => .endMark
    | 0x5b => .scalar 0
    | 0x5c => .scalar 0
    | 0x5d => .scalar 1
    | 0x5e => .scalar 2
    | 0x5f => .scalar 4
    | _ => .unassigned
  else if n < 0x70 then .shortObject (n - 0x60)
  else if n < 0x78 then .shortTypedList (n - 0x70)
  else if n < 0x80 then .shortList (n - 0x78)
  else if n < 0xc0 then .tinyInt ((n : Int) - 0x90)
  else if n < 0xd0 then .shortInt ((n : Int) - 0xc8)
  else if n < 0xd8 then .mediumInt ((n : Int) - 0xd4)
  else if n < 0xf0 then .scalar 0
  else .scalar 1

/-- Whether a string, or a part of one, starts here. -/
def Tag.startsString : Tag → Bool
  | .shortString _ | .mediumString _ | .string | .stringChunk => true
  | _ => false

/-- Whether an integer starts here. -/
def Tag.startsInt : Tag → Bool
  | .tinyInt _ | .shortInt _ | .mediumInt _ | .int => true
  | _ => false

end RpcClient.Hessian
