import RpcClient.Message
import RpcClient.WireError

/-!
Frames: what a codec turns into bytes and back.
-/
namespace RpcClient

inductive FrameKind where
  | request
  /-- A request that wants no response. -/
  | oneway
  | response
  | heartbeat
  deriving DecidableEq, Repr, Inhabited

/-- A frame. What a protocol does not carry keeps its default. -/
structure Frame where
  kind : FrameKind
  requestId : UInt64 := 0
  timeoutMs : UInt32 := 0
  className : String := ""
  status : UInt16 := 0
  /-- The number of the serialisation of the body. -/
  serialization : UInt8 := 0
  /-- Header entries in the order of the wire. -/
  headers : List (String × String) := []
  body : Bytes := []
  deriving DecidableEq, Repr, Inhabited

namespace Frame

def maxSize : Nat := 10485760

def isResponse (f : Frame) : Bool :=
  f.kind == .response

/-- The value of the first header entry under `key`. -/
def header? (f : Frame) (key : String) : Option String :=
  Entries.get? key f.headers

/-- Sets the first header entry under `key`, or adds one. -/
def setHeader (f : Frame) (key value : String) : Frame :=
  { f with headers := Entries.put key value f.headers }

/-- The response with `status` and `body` to this frame. -/
def reply (f : Frame) (status : UInt16) (body : Bytes) : Frame where
  kind := .response
  requestId := f.requestId
  className := f.className
  status
  serialization := f.serialization
  body

def checkSize (size : Nat) : Except WireError Unit :=
  if size > maxSize then .error (.messageTooLarge size maxSize) else .ok ()

theorem checkSize_eq_ok_iff {size : Nat} : checkSize size = .ok () ↔ size ≤ maxSize := by
  rw [checkSize, ← Nat.not_lt]
  split <;> simp_all

/-- The response that a frame carries, not yet judged by its status. -/
def toResponse (f : Frame) : Response where
  header := .ofList f.headers
  data := f.body

end Frame

/-- What decoding the front of a buffer gives. -/
inductive Decoded where
  | incomplete
  | frame (frame : Frame) (rest : Bytes)
  | failed (error : WireError) (rest : Bytes)
  deriving DecidableEq, Repr, Inhabited

end RpcClient
