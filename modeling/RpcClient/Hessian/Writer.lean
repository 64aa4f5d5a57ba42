import RpcClient.Text.Utf8

/-!
Writing strings and maps of strings as Hessian data.
-/
namespace RpcClient.Hessian

/-- The head of a string of `length` characters: in one byte up to 31, in two up to 1023, else in
three, which hold the length modulo 65536. -/
def stringHead (length : Nat) : Bytes :=
  if length < 0x20 then [UInt8.ofNat length]
  else if length < 0x400 then [UInt8.ofNat (0x30 + length / 256), UInt8.ofNat length]
  else 0x53 :: Bytes.bigEndian 2 length

def writeString (text : String) : Bytes :=
  stringHead text.length ++ Utf8.encode text

/-- Entries as an untyped map of strings. -/
def writeStringMap (entries : List (String × String)) : Bytes :=
  0x48 :: (entries.flatMap fun (key, value) => writeString key ++ writeString value) ++ [0x5a]

end RpcClient.Hessian
