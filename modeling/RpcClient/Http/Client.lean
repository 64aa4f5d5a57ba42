import RpcClient.Http.Request
import RpcClient.Http.Response

/-!
What a channel asks of whatever carries its exchanges: connections that take one request at a time and
tell the end of its exchange.
-/
namespace RpcClient.Http

/-- A client. `κ` is the state of a connection, and `ι` what may happen to one from outside. -/
structure Client (κ ι : Type) where
  fresh : κ
  /-- Whether a connection carries no more requests. -/
  isClosed : κ → Bool
  send : Request → κ → κ
  meet : ι → κ → κ
  /-- How the exchange under way has ended: with its whole response, or without one. -/
  result? : κ → Option (Except Outage Response)
  /-- Gets a connection ready for another request once the end of an exchange has been seen. -/
  reset : κ → κ

end RpcClient.Http
