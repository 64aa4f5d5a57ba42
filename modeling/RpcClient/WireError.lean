import RpcClient.Hessian.Cursor

/-!
What goes wrong between frames and bytes.
-/
namespace RpcClient

inductive FrameFlaw where
  | unknownCommandType (type : UInt8)
  | classTooLong
  | headersTooLong
  /-- `part` of a header is longer than four bytes can say. -/
  | tooLong (part : String)
  | classNotText
  /-- Header data ends inside the length of `part`. -/
  | truncatedLength (part : String)
  /-- Header data ends inside `part`. -/
  | truncated (part : String)
  | notText (part : String)
  | statusOutOfRange (status : UInt16)
  | other (reason : String)
  deriving DecidableEq, Repr, Inhabited

def FrameFlaw.message : FrameFlaw → String
  | .unknownCommandType type => s!"unknown command type {type}"
  | .classTooLong => "class name too long"
  | .headersTooLong => "header block too long"
  | .tooLong part => s!"{part} too long"
  | .classNotText => "class name is not utf-8"
  | .truncatedLength part => s!"truncated {part} length"
  | .truncated part => s!"truncated {part}"
  | .notText part => s!"{part} is not utf-8"
  | .statusOutOfRange status => s!"status {status} out of range"
  | .other reason => reason

inductive CodecSettingsFlaw where
  | missing
  | noClass
  | classNotString
  | other (reason : String)
  deriving DecidableEq, Repr, Inhabited

def CodecSettingsFlaw.message : CodecSettingsFlaw → String
  | .missing => "missing bolt classname"
  | .noClass => "bolt need class"
  | .classNotString => "bolt class not string"
  | .other reason => reason

inductive WireError where
  /-- The first bytes belong to another protocol. -/
  | unknownProtocol (code : UInt16)
  | invalidFrameHeader (flaw : FrameFlaw)
  | messageTooLarge (size limit : Nat)
  /-- A frame that is no response stands in the place of one. -/
  | unexpectedFrame (what : String)
  | invalidHessian (flaw : Hessian.Flaw)
  | invalidSettings (flaw : CodecSettingsFlaw)
  deriving DecidableEq, Repr, Inhabited

namespace WireError

def message : WireError → String
  | .unknownProtocol code => "unknown protocol code: " ++ Number.hex code.toNat
  | .invalidFrameHeader flaw => "invalid frame header: " ++ flaw.message
  | .messageTooLarge size limit => s!"message too large: {size} bytes (max {limit})"
  | .unexpectedFrame what => "unexpected frame: " ++ what
  | .invalidHessian flaw => "invalid hessian data: " ++ flaw.message
  | .invalidSettings flaw => flaw.message

def kind : WireError → String
  | .unknownProtocol _ => "unknown_protocol"
  | .invalidFrameHeader _ => "invalid_frame_header"
  | .messageTooLarge _ _ => "message_too_large"
  | .unexpectedFrame _ => "unexpected_frame"
  | .invalidHessian _ => "invalid_hessian"
  | .invalidSettings _ => "invalid_config"

end WireError
end RpcClient
