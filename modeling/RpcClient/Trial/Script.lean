import RpcClient.Codec
import RpcClient.Http.Head

/-!
What a remote of a trial does: how it reads requests and how it answers them.
-/
namespace RpcClient.Trial

inductive Dialect where
  | frames (codec : Codec)
  | http
  deriving Inhabited

inductive Received where
  | frame (frame : Frame)
  /-- The request line, the headers by name, and the body. -/
  | http (line : String) (headers : List (String × String)) (body : Bytes)

structure Action where
  silent : Bool := false
  /-- How long the remote waits before it answers. -/
  delay : Nat := 0
  close : Bool := false
  /-- Bytes to answer with. -/
  raw : Option Bytes := none
  /-- The answer goes out in pieces of this size, one a millisecond. -/
  pieces : Option Nat := none
  /-- The remote hangs up behind its answer. -/
  thenClose : Bool := false
  status : Option Nat := none
  body : Option Bytes := none
  headers : Option (List (String × String)) := none
  /-- What is added to the number of the request. -/
  idOffset : Nat := 0
  /-- The kind of a frame in front of the answer that is like it otherwise. -/
  firstKind : Option FrameKind := none
  /-- The body of an answer to another request, in front of the answer. -/
  strayBody : Option Bytes := none
  /-- How often the answer is sent. -/
  times : Nat := 1

structure Script where
  dialect : Dialect := .http
  /-- The listener that it stands behind. -/
  listener : String := ""
  /-- How the requests are answered, in the order in which they come. -/
  actions : List Action := []
  /-- How long it takes to accept a connection. -/
  acceptDelay : Nat := 0
  /-- How many connections are dropped as soon as they are accepted. -/
  dropFirst : Nat := 0
  deaf : Bool := false

/-- What the front of some bytes holds. -/
inductive Taken where
  | incomplete
  | malformed
  | request (request : Received) (rest : Bytes)

namespace Dialect

/-- The most headers that a remote reads. -/
def maxHeaders : Nat := 1000

/-- A line without its end, which is a line feed with or without a carriage return in front. -/
def takeLine (bytes : Bytes) : Http.Progress Bytes :=
  let line := bytes.takeWhile (· != 0x0a)
  match bytes.drop line.length with
  | [] => .more
  | _ :: rest => .done (if line.getLast? == some 0x0d then line.dropLast else line) rest

def takeHttp (bytes : Bytes) : Http.Progress Received :=
  (takeLine bytes).bind fun line rest =>
    (Http.takeHeaders maxHeaders [] rest).bind fun headers rest =>
      let lengths := (headers.filter (·.1 == "content-length")).map (·.2)
      let length := (Http.sharedLength? lengths).getD 0
      match Bytes.dropExactly length rest with
      | none => .more
      | some behind =>
        let headers := headers.map fun (name, value) => (name, Utf8.decodeLenient value)
        .done (.http (Utf8.decodeLenient line) headers (rest.take length)) behind

def take (dialect : Dialect) (bytes : Bytes) : Taken :=
  match dialect with
  | .frames codec =>
    match codec.decode bytes with
    | .incomplete => .incomplete
    | .failed _ _ => .malformed
    | .frame frame rest => .request (.frame frame) rest
  | .http =>
    match takeHttp bytes with
    | .more => .incomplete
    | .malformed => .malformed
    | .done request rest => .request request rest

def success : Dialect → Nat
  | .frames .dubbo => 20
  | .frames _ => 0
  | .http => 200

end Dialect

namespace Action

/-- A frame as bytes. A frame that cannot be written is left out. -/
def encodeFrame (codec : Codec) (frame : Frame) : Bytes :=
  match codec.encode frame with
  | .ok wire => wire
  | .error _ => []

/-- The frames that answer a frame. -/
def replyFrames (action : Action) (codec : Codec) (frame : Frame) : List Frame :=
  let status := UInt16.ofNat (action.status.getD (Dialect.frames codec).success)
  let reply := frame.reply status (action.body.getD frame.body)
  let reply := {
    reply with
    requestId := reply.requestId + UInt64.ofNat action.idOffset
    headers := action.headers.getD frame.headers }
  let first := action.firstKind.toList.map fun kind => { reply with kind }
  let stray := action.strayBody.toList.map fun body =>
    { reply with requestId := frame.requestId + 1000, body }
  first ++ stray ++ List.replicate action.times reply

/-- The response that answers a request of HTTP/1.1. -/
def replyHttp (action : Action) (line : String) (body : Bytes) : Bytes :=
  let body := action.body.getD body
  let headers := (action.headers.getD []).map fun (name, value) => name ++ ": " ++ value ++ "\r\n"
  Utf8.encode ("HTTP/1.1 " ++ toString (action.status.getD Dialect.http.success) ++ " S\r\n"
    ++ "content-length: " ++ toString body.length ++ "\r\nx-line: " ++ line ++ "\r\n"
    ++ String.join headers ++ "\r\n") ++ body

def reply (action : Action) (dialect : Dialect) (request : Received) : Bytes :=
  match action.raw, dialect, request with
  | some bytes, _, _ => bytes
  | none, .frames codec, .frame frame =>
    (action.replyFrames codec frame).flatMap (encodeFrame codec)
  | none, _, .http line _ body => action.replyHttp line body
  | none, .http, .frame _ => []

/-- Cuts bytes into pieces of `size`, and at most `fuel` of them. -/
def cutWithin (size : Nat) : (fuel : Nat) → Bytes → List Bytes
  | 0, _ | _, [] => []
  | fuel + 1, bytes => bytes.take size :: cutWithin size fuel (bytes.drop size)

def cut (size : Nat) (bytes : Bytes) : List Bytes :=
  cutWithin (max size 1) bytes.length bytes

/-- The bytes that answer a request, in the pieces in which they are sent. -/
def replyPieces (action : Action) (dialect : Dialect) (request : Received) : List Bytes :=
  let bytes := action.reply dialect request
  match action.pieces with
  | some size => cut size bytes
  | none => [bytes]

end Action
end RpcClient.Trial
