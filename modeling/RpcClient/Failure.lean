import RpcClient.Http.Text
import RpcClient.Json.Draft
import RpcClient.WireError

/-!
Why a call fails, and what its caller may do about it.
-/
namespace RpcClient

/-- What is wrong with the settings of a channel or with a request that it cannot send. -/
inductive SettingsFlaw where
  /-- Only addresses can be connected to, and the listener is none. -/
  | notAddress (listener : String)
  | unknownListener (listener : String)
  | method (verb : String)
  | target (text : String) (flaw : Http.TargetFlaw)
  | headerName (key : String)
  | headerValue (key : String)
  | contentType
  | requestId (id : String)
  | other (reason : String)
  deriving DecidableEq, Repr, Inhabited

def SettingsFlaw.message : SettingsFlaw → String
  | .notAddress listener => s!"listener {listener} is not a host:port address"
  | .unknownListener listener => s!"no listener named {listener}"
  | .method verb => s!"invalid http method {verb}"
  | .target text flaw => s!"invalid http request {text}: " ++ flaw.message
  | .headerName key => s!"invalid header name {key}"
  | .headerValue key => s!"invalid value for header {key}"
  | .contentType => "invalid content type"
  | .requestId id => s!"invalid request id {id}"
  | .other reason => reason

inductive TransportFlaw where
  | brokenPipe
  | networkUnreachable
  | connectionRefused
  | notAddress
  | badPort
  | other (reason : String)
  deriving DecidableEq, Repr, Inhabited

def TransportFlaw.message : TransportFlaw → String
  | .brokenPipe => "broken pipe"
  | .networkUnreachable => "Network is unreachable (os error 101)"
  | .connectionRefused => "Connection refused (os error 111)"
  | .notAddress => "invalid socket address"
  | .badPort => "invalid port value"
  | .other reason => reason

inductive ConnectFlaw where
  | dial (address : String) (flaw : TransportFlaw)
  | other (reason : String)
  deriving DecidableEq, Repr, Inhabited

def ConnectFlaw.message : ConnectFlaw → String
  | .dial address flaw => s!"{address}: " ++ flaw.message
  | .other reason => reason

inductive Outage where
  | write (flaw : TransportFlaw)
  | read (flaw : TransportFlaw)
  /-- The bytes of the remote are no HTTP response, or end inside one. -/
  | noHttpResponse
  | other (reason : String)
  deriving DecidableEq, Repr, Inhabited

def Outage.message : Outage → String
  | .write flaw => "write failed: " ++ flaw.message
  | .read flaw => "read failed: " ++ flaw.message
  | .noHttpResponse => "no http response"
  | .other reason => reason

inductive CallbackFlaw where
  | notObject (callback : String)
  /-- The settings of the callback hold something else than a string under `key`. -/
  | notString (callback key : String)
  | other (reason : String)
  deriving DecidableEq, Repr, Inhabited

def CallbackFlaw.message : CallbackFlaw → String
  | .notObject callback => s!"{callback} config must be an object"
  | .notString callback key => s!"{callback}: value of {key} is not a string"
  | .other reason => reason

inductive Failure where
  | settings (flaw : SettingsFlaw)
  | missingChannel
  | channelNotFound (name : String)
  | protocolNotFound (name : String)
  /-- The call gave up waiting for a connection of a pool. -/
  | poolTimeout
  | connectionFailed (flaw : ConnectFlaw)
  | unavailable (outage : Outage)
  /-- The deadline of the call passed, or its caller cancelled it. -/
  | timeout
  | connectionClosed
  | noRoute (domain : String)
  | noHost (cluster : String)
  | httpStatus (status : Nat) (body : String)
  | wire (error : WireError)
  | json (fault : Json.Fault)
  | callback (flaw : CallbackFlaw)
  | panicked (message : String)
  | io (flaw : TransportFlaw)
  deriving DecidableEq, Repr, Inhabited

/-- The class of a failure, as remote procedure calls usually report it. -/
inductive FailureCode where
  | invalidArgument
  | notFound
  | deadlineExceeded
  | unavailable
  | internal
  deriving DecidableEq, Repr, Inhabited

def FailureCode.name : FailureCode → String
  | .invalidArgument => "InvalidArgument"
  | .notFound => "NotFound"
  | .deadlineExceeded => "DeadlineExceeded"
  | .unavailable => "Unavailable"
  | .internal => "Internal"

namespace Failure

def kind : Failure → String
  | .settings _ => "config_error"
  | .missingChannel => "missing_channel_config"
  | .channelNotFound _ => "channel_not_found"
  | .protocolNotFound _ => "protocol_not_found"
  | .poolTimeout => "pool_timeout"
  | .connectionFailed _ => "connection_failed"
  | .unavailable _ => "unavailable"
  | .timeout => "timeout"
  | .connectionClosed => "connection_closed"
  | .noRoute _ => "no_route"
  | .noHost _ => "no_host"
  | .httpStatus _ _ => "http_status"
  | .wire _ => "protocol_error"
  | .json _ => "invalid_json"
  | .callback _ => "callback_error"
  | .panicked _ => "panic"
  | .io _ => "io_error"

def message : Failure → String
  | .settings flaw => "Configuration error: " ++ flaw.message
  | .missingChannel => "missing channel config"
  | .channelNotFound name => s!"channel {name} not found"
  | .protocolNotFound name => s!"protocol {name} not found"
  | .poolTimeout => "connection pool timeout"
  | .connectionFailed flaw => "Connection failed: " ++ flaw.message
  | .unavailable outage => "Unavailable: " ++ outage.message
  | .timeout => "request timeout"
  | .connectionClosed => "connection closed by remote"
  | .noRoute domain => s!"no available service found: {domain}"
  | .noHost cluster => s!"no available server address: {cluster}"
  | .httpStatus status body => s!"http response code {status}, body: {body}"
  | .wire error => "Protocol error: " ++ error.message
  | .json .malformed => "malformed json"
  | .json .cutShort => "json ends too early"
  | .json .mismatch => "json of another shape"
  | .callback flaw => "Callback error: " ++ flaw.message
  | .panicked message => s!"invoker panic: {message}"
  | .io flaw => "IO error: " ++ flaw.message

def code : Failure → FailureCode
  | .settings _ | .missingChannel | .json _ => .invalidArgument
  | .channelNotFound _ | .protocolNotFound _ | .noRoute _ => .notFound
  | .poolTimeout | .timeout => .deadlineExceeded
  | .connectionFailed _ | .unavailable _ | .connectionClosed | .noHost _ | .httpStatus _ _
  | .io _ => .unavailable
  | .wire _ | .callback _ | .panicked _ => .internal

/-- Whether the caller may send the same call again. -/
def isRetryable (failure : Failure) : Bool :=
  failure.code == .deadlineExceeded || failure.code == .unavailable

end Failure
end RpcClient
