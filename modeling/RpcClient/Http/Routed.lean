import RpcClient.Http.Connection
import RpcClient.Routing

/-!
A channel that finds the host of each call by the name of its request, and makes the call an exchange
of HTTP/1.1 on a connection of its own.
-/
namespace RpcClient.Http.Routed

inductive Phase where
  | seeking (request : RpcClient.Request)
  | dialing (host : String) (request : Http.Request)
  /-- It has sent its request and waits for the response. -/
  | exchanging (conn : Connection)
  | done (result : Except Failure RpcClient.Response)
  | dropped

def Phase.isEnded : Phase → Bool
  | .done _ | .dropped => true
  | _ => false

inductive Event where
  | start (request : RpcClient.Request)
  /-- A call looks for its host. -/
  | seek (n : Nat)
  | dialed (n : Nat) (flaw : Option TransportFlaw)
  | written (n count : Nat)
  | received (n : Nat) (bytes : Bytes)
  | finished (n : Nat)
  | broken (n : Nat)
  | finish (n : Nat)
  /-- The deadline of a call has passed, or its caller cancels it. -/
  | giveUp (n : Nat)
  | drop (n : Nat)
  | change (change : RoutingTable.Change)

/-- A channel. Calls are numbered in the order in which they were started. -/
structure Channel where
  table : RoutingTable
  calls : List Phase := []

namespace Channel

def new (table : RoutingTable) : Channel := { table }

/-- What becomes of a call that looks for its host: the host is found and the request is built before
anything is dialled. -/
def begin (table : RoutingTable) (request : RpcClient.Request) : Phase :=
  match table.resolve request.id with
  | .error failure => .done (.error failure)
  | .ok host =>
    match Http.Request.build request with
    | .error flaw => .done (.error (.settings flaw))
    | .ok request => .dialing host request

/-- Changes the phase of a call that has not ended. -/
def modify (ch : Channel) (n : Nat) (f : Phase → Phase) : Channel :=
  { ch with calls := ch.calls.modify n fun phase => if phase.isEnded then phase else f phase }

def seek (ch : Channel) (n : Nat) : Channel :=
  ch.modify n fun phase =>
    match phase with
    | .seeking request => begin ch.table request
    | _ => phase

def modifyConn (ch : Channel) (n : Nat) (f : Connection → Connection) : Channel :=
  ch.modify n fun phase =>
    match phase with
    | .exchanging conn => .exchanging (f conn)
    | _ => phase

def dialed (ch : Channel) (n : Nat) (flaw : Option TransportFlaw) : Channel :=
  ch.modify n fun phase =>
    match phase with
    | .dialing host request =>
      match flaw with
      | some flaw => .done (.error (.connectionFailed (.dial host flaw)))
      | none => .exchanging (Connection.fresh.send request)
    | _ => phase

def finish (ch : Channel) (n : Nat) : Channel :=
  ch.modify n fun phase =>
    match phase with
    | .exchanging conn => conn.result?.elim phase fun result => .done (exchangeOutcome result)
    | _ => phase

def step (ch : Channel) : Event → Channel
  | .start request => { ch with calls := ch.calls ++ [.seeking request] }
  | .seek n => ch.seek n
  | .dialed n flaw => ch.dialed n flaw
  | .written n count => ch.modifyConn n (·.written count)
  | .received n bytes => ch.modifyConn n (·.received bytes)
  | .finished n => ch.modifyConn n (·.finished)
  | .broken n => ch.modifyConn n (·.close)
  | .finish n => ch.finish n
  | .giveUp n => ch.modify n fun _ => .done (.error .timeout)
  | .drop n => ch.modify n fun _ => .dropped
  | .change change => { ch with table := ch.table.change change }

def run (ch : Channel) (events : List Event) : Channel :=
  events.foldl step ch

end Channel
end RpcClient.Http.Routed
