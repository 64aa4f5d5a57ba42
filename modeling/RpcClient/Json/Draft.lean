import RpcClient.Json.Number
import RpcClient.Text.Utf8

/-!
JSON texts as far as they can be read. A draft keeps the order of the text, members under the same
key, and the place where the text breaks off, so that a reader of a draft meets what is wrong with
a text in the order in which it stands there.
-/
namespace RpcClient.Json

inductive Fault where
  | malformed
  | cutShort
  /-- The text is JSON of another shape. -/
  | mismatch
  deriving DecidableEq, Repr, Inhabited

/-- The place where a text breaks off, as a fault for those who read what stands there and for those
who step over it. -/
structure Break where
  read : Fault
  skipped : Fault
  deriving DecidableEq, Repr, Inhabited

inductive Draft where
  | null
  | bool (value : Bool)
  | number (value : Number)
  | hugeNumber
  | string (value : String)
  /-- A string whose characters are not text. -/
  | badString
  /-- Items, and where the text breaks off among or inside them. -/
  | array (items : List Draft) (end? : Option Break)
  /-- Members, and where the text breaks off among or inside them. A key that is not text is
  `none`. -/
  | object (members : List (Option String × Draft)) (end? : Option Break)
  | broken (at_ : Break)
  deriving Repr, Inhabited

namespace Draft

def isBlank (b : UInt8) : Bool :=
  b == 0x20 || b == 0x0a || b == 0x0d || b == 0x09

def skipBlanks : Bytes → Bytes
  | [] => []
  | b :: rest => if isBlank b then skipBlanks rest else b :: rest

def isDigit (b : UInt8) : Bool :=
  0x30 ≤ b && b < 0x3a

def hexValue? (b : UInt8) : Option Nat :=
  if isDigit b then some (b.toNat - 0x30)
  else if 0x61 ≤ b && b < 0x67 then some (b.toNat - 0x61 + 10)
  else if 0x41 ≤ b && b < 0x47 then some (b.toNat - 0x41 + 10)
  else none

def hexOfFour? (a b c d : UInt8) : Option Nat := do
  let a ← hexValue? a
  let b ← hexValue? b
  let c ← hexValue? c
  let d ← hexValue? d
  return ((a * 16 + b) * 16 + c) * 16 + d

inductive StringScan where
  | text (value : String) (rest : Bytes)
  | notText (rest : Bytes)
  | cut (at_ : Break)
  deriving Repr, Inhabited

def escape? (b : UInt8) : Option UInt8 :=
  if b == 0x22 || b == 0x5c || b == 0x2f then some b
  else if b == 0x62 then some 0x08
  else if b == 0x66 then some 0x0c
  else if b == 0x6e then some 0x0a
  else if b == 0x72 then some 0x0d
  else if b == 0x74 then some 0x09
  else none

/-- What stands behind the first half of a surrogate pair. -/
inductive SecondHalf where
  | half (value : Nat)
  | other
  /-- An escape that is cut or wrong in itself. -/
  | unclear

def secondHalf (bytes : Bytes) : SecondHalf :=
  match bytes with
  | [] => .unclear
  | backslash :: bytes =>
    if backslash != 0x5c then .other
    else
      match bytes with
      | [] => .unclear
      | u :: bytes =>
        if u != 0x75 then .other
        else
          match bytes with
          | a :: b :: c :: d :: _ =>
            match hexOfFour? a b c d with
            | none => .unclear
            | some value => if 0xdc00 ≤ value && value < 0xe000 then .half value else .other
          | _ => .unclear

def pushChar (code : Nat) (done : Bytes) : Bytes :=
  (String.utf8EncodeChar (Char.ofNat code)).reverse ++ done

/-- Scans a string behind the bytes in `done`, which holds the newest first. `isText` tells whether
its characters have been text so far. -/
def scanStringAfter (isText : Bool) (done : Bytes) : Bytes → StringScan
  | [] => .cut ⟨if isText then .cutShort else .malformed, .cutShort⟩
  | b :: rest =>
    if b == 0x22 then
      if isText then
        match Utf8.decode done.reverse with
        | .ok value => .text value rest
        | .error _ => .notText rest
      else .notText rest
    else if b == 0x5c then
      match rest with
      | [] => .cut ⟨if isText then .cutShort else .malformed, .cutShort⟩
      | e :: rest =>
        if e == 0x75 then
          match rest with
          | a :: b :: c :: d :: rest =>
            match hexOfFour? a b c d with
            | none => .cut ⟨.malformed, .malformed⟩
            | some high =>
              if 0xdc00 ≤ high && high < 0xe000 then scanStringAfter false done rest
              else if 0xd800 ≤ high && high < 0xdc00 then
                match secondHalf rest with
                | .other => scanStringAfter false done rest
                | .unclear => scanStringAfter isText done rest
                | .half low =>
                  match rest with
                  | _ :: _ :: _ :: _ :: _ :: _ :: rest =>
                    let code := 0x10000 + (high - 0xd800) * 1024 + (low - 0xdc00)
                    scanStringAfter isText (pushChar code done) rest
                  | _ => .cut ⟨.malformed, .malformed⟩
              else scanStringAfter isText (pushChar high done) rest
          | _ => .cut ⟨if isText then .cutShort else .malformed, .cutShort⟩
        else
          match escape? e with
          | none => .cut ⟨.malformed, .malformed⟩
          | some e => scanStringAfter isText (e :: done) rest
    else if b < 0x20 then .cut ⟨.malformed, .malformed⟩
    else scanStringAfter isText (b :: done) rest

def scanString (bytes : Bytes) : StringScan :=
  scanStringAfter true [] bytes

def scanDigits (bytes : Bytes) : List Nat × Bytes :=
  ((bytes.takeWhile isDigit).map fun b => b.toNat - 0x30, bytes.dropWhile isDigit)

def ofNumber (number? : Option Number) : Draft :=
  number?.elim .hugeNumber .number

def noDigit : Bytes → Draft
  | [] => .broken ⟨.cutShort, .malformed⟩
  | _ :: _ => .broken ⟨.malformed, .malformed⟩

def scanExponent (negative : Bool) (whole fraction : List Nat) (bytes : Bytes) : Draft × Bytes :=
  let (below, bytes) :=
    match bytes with
    | b :: rest => if b == 0x2b then (false, rest) else if b == 0x2d then (true, rest) else (false, bytes)
    | [] => (false, [])
  let (digits, rest) := scanDigits bytes
  if digits.isEmpty then (noDigit bytes, [])
  else
    let exponent : Int := Number.ofDigits 10 digits
    let exponent := if below then -exponent else exponent
    (ofNumber (Number.float? negative whole fraction exponent), rest)

/-- Scans what may follow the digits in front of the point: a fraction, an exponent, or both. -/
def scanFraction (negative : Bool) (whole : List Nat) (bytes : Bytes) : Draft × Bytes :=
  match bytes with
  | [] => (ofNumber (Number.whole? negative whole), [])
  | b :: behind =>
    if b == 0x2e then
      let (fraction, rest) := scanDigits behind
      if fraction.isEmpty then (noDigit behind, [])
      else
        match rest with
        | [] => (ofNumber (Number.float? negative whole fraction 0), [])
        | b :: behind =>
          if b == 0x65 || b == 0x45 then scanExponent negative whole fraction behind
          else (ofNumber (Number.float? negative whole fraction 0), rest)
    else if b == 0x65 || b == 0x45 then scanExponent negative whole [] behind
    else (ofNumber (Number.whole? negative whole), bytes)

def scanNumber (negative : Bool) (bytes : Bytes) : Draft × Bytes :=
  let (whole, rest) := scanDigits bytes
  if whole.isEmpty then (noDigit bytes, [])
  else if whole.head? == some 0 && whole.length > 1 then (.broken ⟨.malformed, .malformed⟩, [])
  else scanFraction negative whole rest

def scanWord (value : Draft) : (word : Bytes) → Bytes → Draft × Bytes
  | [], rest => (value, rest)
  | _ :: _, [] => (.broken ⟨.cutShort, .cutShort⟩, [])
  | w :: word, b :: rest =>
    if w == b then scanWord value word rest else (.broken ⟨.malformed, .malformed⟩, [])

def break? : Draft → Option Break
  | .array _ end? => end?
  | .object _ end? => end?
  | .broken at_ => some at_
  | _ => none

mutual

/-- Scans a value. `fuel` bounds the steps. -/
def scanValue : (fuel : Nat) → Bytes → Draft × Bytes
  | 0, _ => (.broken ⟨.malformed, .malformed⟩, [])
  | fuel + 1, bytes =>
    match skipBlanks bytes with
    | [] => (.broken ⟨.cutShort, .cutShort⟩, [])
    | b :: rest =>
      if b == 0x22 then
        match scanString rest with
        | .text value rest => (.string value, rest)
        | .notText rest => (.badString, rest)
        | .cut at_ => (.broken at_, [])
      else if b == 0x5b then scanItems fuel [] rest
      else if b == 0x7b then scanMembers fuel [] rest
      else if b == 0x2d then scanNumber true rest
      else if isDigit b then scanNumber false (b :: rest)
      else if b == 0x74 then scanWord (.bool true) [0x72, 0x75, 0x65] rest
      else if b == 0x66 then scanWord (.bool false) [0x61, 0x6c, 0x73, 0x65] rest
      else if b == 0x6e then scanWord .null [0x75, 0x6c, 0x6c] rest
      else (.broken ⟨.malformed, .malformed⟩, [])

def scanItems : (fuel : Nat) → (items : List Draft) → Bytes → Draft × Bytes
  | 0, items, _ => (.array items.reverse (some ⟨.malformed, .malformed⟩), [])
  | fuel + 1, items, bytes =>
    match skipBlanks bytes with
    | [] => (.array items.reverse (some ⟨.cutShort, .cutShort⟩), [])
    | b :: rest =>
      if b == 0x5d then (.array items.reverse none, rest)
      else if items.isEmpty then scanItem fuel items (b :: rest)
      else if b == 0x2c then scanItem fuel items rest
      else (.array items.reverse (some ⟨.malformed, .malformed⟩), [])

def scanItem : (fuel : Nat) → (items : List Draft) → Bytes → Draft × Bytes
  | 0, items, _ => (.array items.reverse (some ⟨.malformed, .malformed⟩), [])
  | fuel + 1, items, bytes =>
    let (item, rest) := scanValue fuel bytes
    match item.break? with
    | some at_ => (.array (item :: items).reverse (some at_), [])
    | none => scanItems fuel (item :: items) rest

def scanMembers : (fuel : Nat) → (members : List (Option String × Draft)) → Bytes → Draft × Bytes
  | 0, members, _ => (.object members.reverse (some ⟨.malformed, .malformed⟩), [])
  | fuel + 1, members, bytes =>
    match skipBlanks bytes with
    | [] => (.object members.reverse (some ⟨.cutShort, .cutShort⟩), [])
    | b :: rest =>
      if b == 0x7d then (.object members.reverse none, rest)
      else if members.isEmpty then scanMember fuel members (b :: rest)
      else if b == 0x2c then
        match skipBlanks rest with
        | [] => (.object members.reverse (some ⟨.cutShort, .cutShort⟩), [])
        | rest => scanMember fuel members rest
      else (.object members.reverse (some ⟨.malformed, .malformed⟩), [])

def scanMember : (fuel : Nat) → (members : List (Option String × Draft)) → Bytes → Draft × Bytes
  | 0, members, _ => (.object members.reverse (some ⟨.malformed, .malformed⟩), [])
  | fuel + 1, members, bytes =>
    match bytes with
    | [] => (.object members.reverse (some ⟨.cutShort, .cutShort⟩), [])
    | quote :: rest =>
      if quote != 0x22 then (.object members.reverse (some ⟨.malformed, .malformed⟩), [])
      else
        match scanString rest with
        | .cut at_ => (.object members.reverse (some at_), [])
        | .text key rest => scanMemberValue fuel members (some key) rest
        | .notText rest => scanMemberValue fuel members none rest

def scanMemberValue : (fuel : Nat) → (members : List (Option String × Draft)) →
    (key : Option String) → Bytes → Draft × Bytes
  | 0, members, _, _ => (.object members.reverse (some ⟨.malformed, .malformed⟩), [])
  | fuel + 1, members, key, bytes =>
    let (value, rest) : Draft × Bytes :=
      match skipBlanks bytes with
      | [] => (.broken ⟨.cutShort, .cutShort⟩, [])
      | b :: rest =>
        if b == 0x3a then scanValue fuel rest else (.broken ⟨.malformed, .malformed⟩, [])
    match value.break? with
    | some at_ => (.object ((key, value) :: members).reverse (some at_), [])
    | none => scanMembers fuel ((key, value) :: members) rest

end

end Draft

/-- A JSON text as a draft, and whether anything but blanks follows the value. No byte is met by more
than four steps of the scan. -/
def draft (text : Bytes) : Draft × Bool :=
  let (value, rest) := Draft.scanValue (4 * text.length + 4) text
  (value, !(Draft.skipBlanks rest).isEmpty)

end RpcClient.Json
