import RpcClient.Failure
import RpcClient.Http.Body
import RpcClient.Message

/-!
Responses of HTTP/1, and what they mean to the calls that get them.
-/
namespace RpcClient.Http

structure Response where
  status : Nat
  /-- Names in small letters with their values, in the order of the wire. -/
  headers : List (String × Bytes)
  body : Bytes
  deriving DecidableEq, Repr, Inhabited

namespace Response

/-- The longest body that a failure quotes, in bytes. -/
def excerptSize : Nat := 512

/-- The outcome of a call that got a response. Any status but 200 is a failure. Header values beyond
ASCII are left out. -/
def outcome (response : Response) : Except Failure RpcClient.Response :=
  if response.status ≠ 200 then
    .error (.httpStatus response.status (Utf8.decodeLenient (response.body.take excerptSize)))
  else
    let plain := response.headers.filter fun (_, value) => value.all isPlain
    let header := Header.ofList (plain.map fun (name, value) => (name, Utf8.decodeLenient value))
    .ok {
      header
      contentType := header.get "content-type"
      data := response.body
      success := true }

end Response

def exchangeOutcome : Except Outage Response → Except Failure RpcClient.Response
  | .ok response => response.outcome
  | .error outage => .error (.unavailable outage)

end RpcClient.Http
