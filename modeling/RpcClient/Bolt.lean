import RpcClient.Frame
import RpcClient.Json.Value

/-!
The bolt protocol in its two generations.

A frame starts with a fixed part: protocol number, in the second generation the version of the
layout, command type, command code, command version, request number, serialisation, in the second
generation a switch, then the timeout of a request or the status of a response, and the lengths of
class name, header block and body. Class name, header block and body follow, and a checksum where
the switch asks for one.
-/
namespace RpcClient.Bolt

inductive Version where
  | v1
  | v2
  deriving DecidableEq, Repr, Inhabited

namespace Version

def name : Version → String
  | .v1 => "bolt"
  | .v2 => "boltv2"

def protocolNumber : Version → UInt8
  | .v1 => 1
  | .v2 => 2

/-- The bytes in front of the command type. -/
def start : Version → Bytes
  | .v1 => [1]
  | .v2 => [2, 1]

def typeOffset : Version → Nat
  | .v1 => 1
  | .v2 => 2

/-- The bytes between the serialisation and the timeout or status: the switch, all flags off. -/
def switches : Version → Bytes
  | .v1 => []
  | .v2 => [0]

/-- The size of the fixed part of a response, or of any other frame. -/
def fixedSize (version : Version) (isResponse : Bool) : Nat :=
  match version, isResponse with
  | .v1, false => 22
  | .v1, true => 20
  | .v2, false => 24
  | .v2, true => 22

end Version

def commandOf : FrameKind → UInt8 × Nat
  | .request => (1, 1)
  | .oneway => (2, 1)
  | .response => (0, 2)
  | .heartbeat => (1, 0)

/-- The kind of frame that a command type and a command code stand for. Codes count for requests
alone. -/
def kindOf (type : UInt8) (code : Nat) : FrameKind :=
  if type = 0 then .response
  else if code = 0 then .heartbeat
  else if type = 2 then .oneway
  else .request

/-- Writes a text of a header block behind its length. `part` names it in errors. -/
def encodeText (part text : String) : Except WireError Bytes :=
  let bytes := Utf8.encode text
  if bytes.length ≥ UInt32.size then .error (.invalidFrameHeader (.tooLong part))
  else .ok (Bytes.bigEndian 4 bytes.length ++ bytes)

def encodeEntry (entry : String × String) : Except WireError Bytes := do
  return (← encodeText "header key" entry.1) ++ (← encodeText "header value" entry.2)

def encodeHeaders (headers : List (String × String)) : Except WireError Bytes := do
  return (← headers.mapM encodeEntry).flatten

def encode (version : Version) (frame : Frame) : Except WireError Bytes := do
  let headers ← encodeHeaders frame.headers
  let className := Utf8.encode frame.className
  let bodySize := frame.body.length
  let fixedSize := version.fixedSize frame.isResponse
  Frame.checkSize (fixedSize + className.length + headers.length + bodySize)
  if className.length ≥ 65536 then
    throw (.invalidFrameHeader .classTooLong)
  if headers.length ≥ 65536 then
    throw (.invalidFrameHeader .headersTooLong)
  let (type, code) := commandOf frame.kind
  return version.start ++ type :: Bytes.bigEndian 2 code ++ 1 ::
    Bytes.bigEndian 4 frame.requestId.toNat ++ frame.serialization :: version.switches ++
    (if frame.isResponse then Bytes.bigEndian 2 frame.status.toNat
      else Bytes.bigEndian 4 frame.timeoutMs.toNat) ++
    Bytes.bigEndian 2 className.length ++ Bytes.bigEndian 2 headers.length ++
    Bytes.bigEndian 4 bodySize ++ (className ++ (headers ++ frame.body))

/-- Takes a text behind its length off a header block. `part` names it in errors. -/
def takeText (part : String) (block : Bytes) : Except WireError (String × Bytes) :=
  match Bytes.dropExactly 4 block with
  | none => .error (.invalidFrameHeader (.truncatedLength part))
  | some rest =>
    let size := Bytes.numberAt block 0 4
    match Bytes.dropExactly size rest with
    | none => .error (.invalidFrameHeader (.truncated part))
    | some behind =>
      match Utf8.decode (rest.take size) with
      | .error _ => .error (.invalidFrameHeader (.notText part))
      | .ok text => .ok (text, behind)

/-- Reads at most `fuel` header entries behind those in `headers`, which holds the newest first. -/
def decodeHeadersWithin : (fuel : Nat) → (headers : List (String × String)) → Bytes →
    Except WireError (List (String × String))
  | 0, headers, _ => .ok headers.reverse
  | fuel + 1, headers, block =>
    if block.isEmpty then .ok headers.reverse
    else do
      let (key, block) ← takeText "header key" block
      let (value, block) ← takeText "header value" block
      decodeHeadersWithin fuel ((key, value) :: headers) block

/-- Reads a header block. Every entry takes bytes, so there are no more entries than bytes. -/
def decodeHeaders (block : Bytes) : Except WireError (List (String × String)) :=
  decodeHeadersWithin block.length [] block

/-- The lengths that the fixed part of a frame declares. -/
structure Lengths where
  className : Nat
  headers : Nat
  body : Nat
  checksum : Nat
  deriving DecidableEq, Repr

/-- The lengths declared by a buffer that starts with a fixed part of `fixedSize` bytes. -/
def Lengths.read (version : Version) (fixedSize : Nat) (buffer : Bytes) : Lengths where
  className := Bytes.numberAt buffer (fixedSize - 8) 2
  headers := Bytes.numberAt buffer (fixedSize - 6) 2
  body := Bytes.numberAt buffer (fixedSize - 4) 4
  checksum :=
    match version with
    | .v1 => 0
    | .v2 => if Bytes.numberAt buffer 11 1 % 2 = 1 then 4 else 0

def Lengths.sum (lengths : Lengths) : Nat :=
  lengths.className + lengths.headers + lengths.body + lengths.checksum

/-- Reads a whole frame: the fixed part from the front of `buffer`, the other parts from `parts`,
which follows it. -/
def readFrame (version : Version) (isResponse : Bool) (lengths : Lengths) (buffer parts : Bytes) :
    Except WireError Frame := do
  let type := version.typeOffset
  let className ←
    match Utf8.decode (parts.take lengths.className) with
    | .ok text => pure text
    | .error _ => throw (.invalidFrameHeader .classNotText)
  let parts := parts.drop lengths.className
  let headers ← decodeHeaders (parts.take lengths.headers)
  let behind := type + 9 + version.switches.length
  return {
    kind := kindOf (UInt8.ofNat (Bytes.numberAt buffer type 1)) (Bytes.numberAt buffer (type + 1) 2)
    requestId := UInt64.ofNat (Bytes.numberAt buffer (type + 4) 4)
    timeoutMs := if isResponse then 0 else UInt32.ofNat (Bytes.numberAt buffer behind 4)
    className
    status := if isResponse then UInt16.ofNat (Bytes.numberAt buffer behind 2) else 0
    serialization := UInt8.ofNat (Bytes.numberAt buffer (type + 8) 1)
    headers
    body := (parts.drop lengths.headers).take lengths.body }

def decode (version : Version) (buffer : Bytes) : Decoded :=
  match buffer with
  | [] => .incomplete
  | first :: _ =>
    if first ≠ version.protocolNumber then .failed (.unknownProtocol first.toUInt16) buffer
    else
      match buffer[version.typeOffset]? with
      | none => .incomplete
      | some type =>
        if type > 2 then .failed (.invalidFrameHeader (.unknownCommandType type)) buffer
        else
          let isResponse := type == 0
          let fixedSize := version.fixedSize isResponse
          match Bytes.dropExactly fixedSize buffer with
          | none => .incomplete
          | some parts =>
            let lengths := Lengths.read version fixedSize buffer
            match Frame.checkSize (fixedSize + lengths.sum) with
            | .error error => .failed error buffer
            | .ok () =>
              match Bytes.dropExactly lengths.sum parts with
              | none => .incomplete
              | some rest =>
                match readFrame version isResponse lengths buffer parts with
                | .error error => .failed error rest
                | .ok frame => .frame frame rest

def classOf (settings : List (String × Json)) : Except WireError String :=
  if settings.isEmpty then .error (.invalidSettings .missing)
  else
    match Entries.get? "class" settings with
    | none => .error (.invalidSettings .noClass)
    | some (.string name) => .ok name
    | some _ => .error (.invalidSettings .classNotString)

def hessianSerialization : UInt8 := 1

def toFrame (className : String) (request : Request) : Frame where
  kind := .request
  timeoutMs := request.timeoutMs
  className
  serialization := hessianSerialization
  headers := request.header.toList
  body := request.data

def statusError? (status : UInt16) : Option RemoteError :=
  let text := s!"bolt error code {status}"
  match status with
  | 0 => none
  | 0x12 => some ⟨status, text ++ ", ServerDeserializeException"⟩
  | 0x11 => some ⟨status, text ++ ", ServerSerializeException"⟩
  | 0x09 => some ⟨status, text ++ ", CodecException"⟩
  | _ => some ⟨status, text⟩

def ofFrame (frame : Frame) : Except WireError Response :=
  if frame.isResponse then
    let error := statusError? frame.status
    .ok { frame.toResponse with success := error.isNone, error }
  else .error (.unexpectedFrame "bolt request in place of a response")

end RpcClient.Bolt
