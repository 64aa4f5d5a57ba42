import RpcClient.Bytes
import RpcClient.Header

/-!
Requests and responses, independent of the protocol that carries them.
-/
namespace RpcClient

structure Request where
  /-- The caller's name for the request; routed channels resolve it to a host. -/
  id : String := ""
  /-- What to call; the path of an HTTP request. -/
  method : String := ""
  contentType : String := ""
  header : Header := .empty
  data : Bytes := []
  /-- The time allowed for the call in milliseconds. Zero: not set. -/
  timeoutMs : UInt32 := 0
  deriving Inhabited

structure RemoteError where
  status : UInt16
  message : String
  deriving DecidableEq, Repr, Inhabited

structure Response where
  header : Header := .empty
  contentType : String := ""
  data : Bytes := []
  success : Bool := false
  error : Option RemoteError := none
  deriving Inhabited

namespace Request

/-- The header that names a `host:port` to call directly, past the shared connection. -/
def targetAddressKey : String := "rpc_target_address"

/-- The header that sets the timeout of a request that has none, in milliseconds. -/
def timeoutKey : String := "rpc_request_timeout"

/-- The timeout of a request that has none, if its header sets none either. -/
def defaultTimeoutMs : UInt32 := 3000

/-- The address that a request is for directly. Without one it goes over the shared connection. -/
def target (request : Request) : String :=
  request.header.get targetAddressKey

end Request
end RpcClient
