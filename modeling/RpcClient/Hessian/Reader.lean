import RpcClient.Hessian.Cursor

/-!
Reading strings, integers and maps of strings from Hessian data, and stepping over values of any
kind without building them.
-/
namespace RpcClient.Hessian

/-- How deep values may be nested when they are stepped over. -/
def maxDepth : Nat := 64

/-- The number of bytes of the character that `lead` starts. -/
def characterWidth? (lead : UInt8) : Option Nat :=
  if lead < 0x80 then some 1
  else if lead < 0xc0 then none
  else if lead < 0xe0 then some 2
  else if lead < 0xf0 then some 3
  else if lead < 0xf8 then some 4
  else none

/-- Takes `count` bytes in front of those in `taken`, which holds the newest first. -/
def takeBytes : (count : Nat) → (taken : Bytes) → Read Bytes
  | 0, taken => pure taken
  | count + 1, taken => do
    let b ← byte
    takeBytes count (b :: taken)

/-- Takes the bytes of `count` characters in front of those in `taken`, which holds the newest
first. A length counts characters, so the bytes are found one character at a time. -/
def takeCharacters : (count : Nat) → (taken : Bytes) → Read Bytes
  | 0, taken => pure taken
  | count + 1, taken => do
    let lead ← byte
    match characterWidth? lead with
    | none => throw .badLead
    | some width =>
      let taken ← takeBytes (width - 1) (lead :: taken)
      takeCharacters count taken

def characters (count : Nat) : Read String := do
  let taken ← takeCharacters count []
  match Utf8.decode taken.reverse with
  | .ok text => pure text
  | .error flaw => throw (.badText flaw)

/-- Reads the parts of a string behind those in `text`, at most `fuel` of them. -/
def readStringWithin : (fuel : Nat) → (text : String) → Read (Option String)
  | 0, _ => throw .endOfData
  | fuel + 1, text => do
    let b ← byte
    match Tag.ofByte b with
    | .null => pure none
    | .shortString length => return some (text ++ (← characters length))
    | .mediumString high =>
      let low ← byte
      return some (text ++ (← characters (high * 256 + low.toNat)))
    | .string =>
      let length ← word
      return some (text ++ (← characters length))
    | .stringChunk =>
      let length ← word
      let part ← characters length
      readStringWithin fuel (text ++ part)
    | _ => throw (.notString b)

/-- Reads a string, whole or in parts. A null reads as `none`. Every part takes a byte, so there
are no more parts than bytes. -/
def readString : Read (Option String) := do
  readStringWithin (← get).remaining ""

/-- Reads an integer of 32 bits in any of its forms. -/
def readInt : Read Int := do
  let b ← byte
  match Tag.ofByte b with
  | .tinyInt value => return value
  | .shortInt high => return high * 256 + (← byte).toNat
  | .mediumInt high =>
    let low ← word
    return high * 65536 + low
  | .int =>
    let high ← word
    let low ← word
    return Int.bmod (high * 65536 + low) UInt32.size
  | _ => throw (.notInt b)

def readLength : Read Nat := do
  match ← readInt with
  | .ofNat length => return length
  | length => throw (.negativeLength length)

/-- Steps over the type of a list or map: a name, or the number of one named before. -/
def skipType : Read Unit := do
  if (Tag.ofByte (← peek)).startsString then
    discard readString
  else
    discard readInt

/-- Steps over the parts of a binary behind the tag `b`, at most `fuel` of them. Only a part with
a length of two bytes may end it. -/
def skipBinaryWithin : (fuel : Nat) → (b : UInt8) → Read Unit
  | 0, _ => throw .endOfData
  | fuel + 1, b => do
    skip (← word)
    if Tag.ofByte b == .binary then
      return
    let next ← byte
    match Tag.ofByte next with
    | .binary | .binaryChunk => skipBinaryWithin fuel next
    | _ => throw (.badBinaryChunk next)

/-- Steps over the fields of an instance of class `number`, each by `field`. -/
def skipFields (number : Nat) (field : Read Unit) : Read Unit := do
  match (← get).classes[number]? with
  | none => throw (.undefinedClass number)
  | some fields => times fields field

/-- Steps over what follows the tag `b` of a value that is neither string nor integer. `inner`
steps over one value nested in it. -/
def skipBody (inner : Read Unit) (b : UInt8) : Read Unit := do
  match Tag.ofByte b with
  | .null | .boolean => return
  | .scalar width => skip width
  | .shortBinary length => skip length
  | .mediumBinary high => skip (high * 256 + (← byte).toNat)
  | .binary | .binaryChunk => skipBinaryWithin ((← get).remaining + 1) b
  | .typedList =>
    skipType
    untilEnd inner
  | .typedFixedList =>
    skipType
    times (← readLength) inner
  | .list => untilEnd inner
  | .fixedList => times (← readLength) inner
  | .shortTypedList length =>
    skipType
    times length inner
  | .shortList length => times length inner
  | .map => untilEnd inner
  | .typedMap =>
    skipType
    untilEnd inner
  | .classDefinition =>
    discard readString
    let fields ← readLength
    times fields (discard readString)
    defineClass fields
    inner
  | .object => skipFields (← readLength) inner
  | .shortObject number => skipFields number inner
  | .reference => discard readInt
  | _ => throw (.unknownTag b)

/-- Steps over one value that may hold `room - 1` further levels. A class definition takes a level
and ends with the instance that follows it. -/
def skipWithin : (room : Nat) → Read Unit
  | 0 => throw .tooDeep
  | room + 1 => do
    let tag := Tag.ofByte (← peek)
    if tag.startsString then
      discard readString
    else if tag.startsInt then
      discard readInt
    else
      let b ← byte
      skipBody (skipWithin room) b

def skipValue : Read Unit :=
  skipWithin (maxDepth + 1)

/-- Reads a string. Where there is none, steps over the value that stands there instead. -/
def readStringOrSkip : Read (Option String) := fun c =>
  match readString c with
  | .ok text c => .ok text c
  | .error _ _ => (do skipValue; return none : Read (Option String)) c

/-- Reads entries of a map up to its end mark, at most `fuel` of them, behind those in `entries`,
which holds the newest first. -/
def readEntriesWithin : (fuel : Nat) → (entries : List (String × String)) →
    Read (List (String × String))
  | 0, _ => throw .endOfData
  | fuel + 1, entries => do
    if Tag.ofByte (← peek) == .endMark then
      discard byte
      return entries.reverse
    let key ← readStringOrSkip
    let value ← readStringOrSkip
    match key, value with
    | some key, some value => readEntriesWithin fuel ((key, value) :: entries)
    | _, _ => readEntriesWithin fuel entries

/-- Reads a map. Entries with a key or value that is no string are stepped over. -/
def readStringMap : Read (List (String × String)) := do
  let b ← byte
  match Tag.ofByte b with
  | .map => pure ()
  | .typedMap => skipType
  | _ => throw (.notMap b)
  readEntriesWithin (← get).remaining []

end RpcClient.Hessian
