import RpcClient.Message
import RpcClient.Text.Blank
import RpcClient.Text.Number

/-!
The time that a request is allowed.
-/
namespace RpcClient.Request

/-- A positive number of milliseconds in a header value, which may have blanks around it. -/
def readTimeout? (text : String) : Option UInt32 :=
  match Number.read? UInt32.size (Blank.trim text) with
  | none | some 0 => none
  | some (ms + 1) => some (UInt32.ofNat (ms + 1))

/-- Gives a request without timeout the one of its header, or else the default. -/
def resolveTimeout (request : Request) : Request :=
  if request.timeoutMs ≠ 0 then request
  else
    { request with
      timeoutMs := (readTimeout? (request.header.get timeoutKey)).getD defaultTimeoutMs }

end RpcClient.Request
