import RpcClient.Frame
import RpcClient.Hessian.Reader
import RpcClient.Hessian.Writer

/-!
The dubbo protocol.

A frame is a header of sixteen bytes and a body. The body of a request is an invocation in Hessian:
four strings that name the service, the descriptor of the parameters, the arguments, and a map of
attachments. Header entries and the timeout of a request travel as attachments. Bodies that are no
invocations pass as they are.
-/
namespace RpcClient.Dubbo

def magic : UInt16 := 0xdabb

def headerSize : Nat := 16

def hessianSerialization : UInt8 := 2

/-- The header keys of the leading strings of an invocation, in their order. -/
def serviceKeys : List String := ["dubbo", "service", "version", "method"]

def serviceKey : String := "service"

/-- The attachment that holds the timeout in milliseconds. -/
def timeoutKey : String := "timeout"

/-- Counts parameters in a descriptor, behind `count` of them. Arrays are marked in front of their
element type; `inName` tells whether the name of a class runs. -/
def countFrom (count : Nat) (inName : Bool) : List Char → Option Nat
  | [] => if inName then none else some count
  | c :: rest =>
    if inName then
      if c = ';' then countFrom (count + 1) false rest else countFrom count true rest
    else if c = '[' then countFrom count false rest
    else if c = 'L' then countFrom count true rest
    else if c ∈ ['Z', 'B', 'C', 'D', 'F', 'I', 'J', 'S'] then countFrom (count + 1) false rest
    else none

/-- The number of parameters that a method descriptor such as `Ljava/lang/String;[I` declares. -/
def argumentCount? (descriptor : String) : Option Nat :=
  countFrom 0 false descriptor.toList

/-- A request body, cut in front of its attachments. -/
structure Invocation where
  /-- The leading strings that are not null, under their header keys. -/
  service : List (String × String)
  argumentsEnd : Nat
  attachments : List (String × String)
  deriving DecidableEq, Repr

inductive Invocation.Flaw where
  | hessian (flaw : Hessian.Flaw)
  | badDescriptor (descriptor : String)
  | trailingBytes
  deriving DecidableEq, Repr, Inhabited

def readService : (keys : List String) → Hessian.Read (List (String × String))
  | [] => pure []
  | key :: keys => do
    match ← Hessian.readString with
    | none => readService keys
    | some value => return (key, value) :: (← readService keys)

def readSignature : Hessian.Read (List (String × String) × String) := do
  let service ← readService serviceKeys
  let descriptor ← Hessian.readString
  return (service, descriptor.getD "")

/-- Reads the attachments, of which there are none at the end of the data. -/
def readAttachments : Hessian.Read (List (String × String)) := do
  if (← get).isEmpty then return []
  Hessian.readStringMap

def Invocation.parse (body : Bytes) : Except Invocation.Flaw Invocation :=
  match readSignature (.ofBytes body) with
  | .error flaw _ => .error (.hessian flaw)
  | .ok (service, descriptor) cursor =>
    match argumentCount? descriptor with
    | none => .error (.badDescriptor descriptor)
    | some count =>
      match Hessian.times count Hessian.skipValue cursor with
      | .error flaw _ => .error (.hessian flaw)
      | .ok () argumentsEnd =>
        match readAttachments argumentsEnd with
        | .error flaw _ => .error (.hessian flaw)
        | .ok attachments cursor =>
          if cursor.isEmpty then
            .ok { service, argumentsEnd := argumentsEnd.position, attachments }
          else .error .trailingBytes

/-- The attachments that a frame sends: those already in the body, overridden by the header entries
of the frame and by its timeout. -/
def attachmentsOf (frame : Frame) (inBody : List (String × String)) : List (String × String) :=
  let own := frame.headers.filter fun (key, _) => !serviceKeys.contains key
  let merged := own.foldl (fun entries (key, value) => Entries.put key value entries) inBody
  if frame.timeoutMs > 0 then Entries.put timeoutKey (toString frame.timeoutMs.toNat) merged
  else merged

/-- The body that a frame sends: an invocation gets the attachments of the frame. -/
def attach (frame : Frame) : Bytes :=
  match Invocation.parse frame.body with
  | .error _ => frame.body
  | .ok invocation =>
    let attachments := attachmentsOf frame invocation.attachments
    if attachments.isEmpty then frame.body
    else frame.body.take invocation.argumentsEnd ++ Hessian.writeStringMap attachments

def carriesInvocation : FrameKind → Bool
  | .request | .oneway => true
  | .response | .heartbeat => false

/-- The flags of a frame: request, two-way, event, and five bits for the serialisation. -/
def flagsOf (kind : FrameKind) (serialization : UInt8) : UInt8 :=
  let low := serialization % 32
  match kind with
  | .request => 0xc0 + low
  | .oneway => 0x80 + low
  | .heartbeat => 0xe0 + low
  | .response => low

def kindOf (flags : UInt8) : FrameKind :=
  if flags < 0x80 then .response
  else if flags / 32 % 2 = 1 then .heartbeat
  else if flags / 64 % 2 = 0 then .oneway
  else .request

def encode (frame : Frame) : Except WireError Bytes := do
  let body := if carriesInvocation frame.kind then attach frame else frame.body
  let size := body.length
  Frame.checkSize (headerSize + size)
  if frame.isResponse && frame.status ≥ 256 then
    throw (.invalidFrameHeader (.statusOutOfRange frame.status))
  let status := if frame.isResponse then frame.status.toUInt8 else 0
  return Bytes.bigEndian 2 magic.toNat ++ flagsOf frame.kind frame.serialization :: status ::
    Bytes.bigEndian 8 frame.requestId.toNat ++ Bytes.bigEndian 4 size ++ body

/-- Takes an attachment into a received frame: the timeout into its field, where a text that is no
number counts as zero, and any other into the header. -/
def receiveAttachment (frame : Frame) : String × String → Frame
  | (key, value) =>
    if key = timeoutKey then
      { frame with timeoutMs := UInt32.ofNat ((Number.read? UInt32.size value).getD 0) }
    else frame.setHeader key value

/-- Gives a received request the header entries, the timeout and the class of its body. -/
def withInvocation (frame : Frame) (invocation : Invocation) : Frame :=
  let start := { frame with headers := invocation.service }
  let full := invocation.attachments.foldl receiveAttachment start
  { full with className := (full.header? serviceKey).getD full.className }

/-- Reads a whole frame: the fixed fields from the front of `buffer`. -/
def readFrame (buffer body : Bytes) : Frame :=
  let flags := UInt8.ofNat (Bytes.numberAt buffer 2 1)
  let kind := kindOf flags
  let frame : Frame := {
    kind
    requestId := UInt64.ofNat (Bytes.numberAt buffer 4 8)
    status := UInt16.ofNat (Bytes.numberAt buffer 3 1)
    serialization := flags % 32
    body }
  if carriesInvocation kind then
    match Invocation.parse body with
    | .ok invocation => withInvocation frame invocation
    | .error _ => frame
  else frame

def decode (buffer : Bytes) : Decoded :=
  match Bytes.dropExactly 2 buffer with
  | none => .incomplete
  | some _ =>
    let start := Bytes.numberAt buffer 0 2
    if start ≠ magic.toNat then .failed (.unknownProtocol (UInt16.ofNat start)) buffer
    else
      match Bytes.dropExactly headerSize buffer with
      | none => .incomplete
      | some parts =>
        let bodySize := Bytes.numberAt buffer 12 4
        match Frame.checkSize (headerSize + bodySize) with
        | .error error => .failed error buffer
        | .ok () =>
          match Bytes.dropExactly bodySize parts with
          | none => .incomplete
          | some rest => .frame (readFrame buffer (parts.take bodySize)) rest

/-- The frame of a request. What its body says about itself comes first; header entries of the
request override it. -/
def toFrame (request : Request) : Frame :=
  let frame : Frame := {
    kind := .request
    timeoutMs := request.timeoutMs
    serialization := hessianSerialization
    body := request.data }
  let described :=
    match Invocation.parse request.data with
    | .error _ => frame
    | .ok invocation => { frame with headers := invocation.service ++ invocation.attachments }
  let named := { described with className := (described.header? serviceKey).getD "" }
  request.header.toList.foldl (fun frame (key, value) => frame.setHeader key value) named

def statusOk : UInt16 := 20

def ofFrame (frame : Frame) : Except WireError Response :=
  if frame.isResponse then
    if frame.status = statusOk then .ok { frame.toResponse with success := true }
    else
      .ok { frame.toResponse with
        error := some ⟨frame.status, s!"dubbo error code {frame.status}"⟩ }
  else .error (.unexpectedFrame "dubbo request in place of a response")

end RpcClient.Dubbo
