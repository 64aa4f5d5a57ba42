import RpcClient.Http.Client
import RpcClient.Pool.Step

/-!
A channel that makes each call an exchange of HTTP on a connection of a pool, by whatever client.

Only a connection whose exchange ran to the end of a response goes back to the pool. Any other one is
closed, since what the remote still sends on it belongs to a call that has ended.
-/
namespace RpcClient.Http

namespace Channel

/-- What a call does behind a connection that it has parted with. -/
inductive Next where
  | answer (result : Except Failure RpcClient.Response)
  | renew (request : Http.Request)
  | drop

inductive Phase where
  /-- It wants a connection, as this caller of the pool. -/
  | getting (request : Http.Request) (caller : Nat)
  | exchanging (request : Http.Request) (caller : Nat)
  /-- It has parted with its connection and still has its place in the pool. -/
  | parting (caller : Nat) (next : Next)
  | done (result : Except Failure RpcClient.Response)
  /-- Its caller lost interest. -/
  | dropped

def Phase.isEnded : Phase → Bool
  | .done _ | .dropped => true
  | _ => false

inductive Event (ι : Type) where
  | start (request : RpcClient.Request)
  | resume (n : Nat)
  /-- A call takes the connection returned last, or starts to connect if there is none. -/
  | pick (n : Nat)
  | dialed (n : Nat) (failure : Option Failure)
  | begin (n : Nat)
  | finish (n : Nat)
  /-- A call that has parted with its connection gives its place back and goes on. -/
  | leave (n : Nat)
  | deadline (n : Nat)
  | cancel (n : Nat)
  | drop (n : Nat)
  | meet (c : Nat) (input : ι)

end Channel

/-- A channel. Calls are numbered in the order in which they were started. -/
structure Channel (κ : Type) where
  pool : Pool κ Unit
  calls : List Channel.Phase := []

namespace Channel

variable {κ ι : Type}

def new (size : Nat) : Channel κ where
  pool := .new size none

def setPhase (ch : Channel κ) (n : Nat) (phase : Phase) : Channel κ :=
  { ch with calls := ch.calls.set n phase }

def answer (ch : Channel κ) (n : Nat) (result : Except Failure RpcClient.Response) : Channel κ :=
  ch.setPhase n (.done result)

/-- Lets the pool take a step for a call that wants a connection. -/
def withCaller (ch : Channel κ) (n : Nat) (step : Pool κ Unit → Nat → Pool κ Unit) : Channel κ :=
  match ch.calls[n]? with
  | some (.getting _ caller) => { ch with pool := step ch.pool caller }
  | _ => ch

def modifyConn (ch : Channel κ) (c : Nat) (f : κ → κ) : Channel κ :=
  { ch with pool := ch.pool.modifyConn c fun conn => { conn with content := f conn.content } }

/-- Starts a call. A request that cannot be sent fails before it wants a connection. -/
def start (ch : Channel κ) (request : RpcClient.Request) : Channel κ :=
  match Http.Request.build request with
  | .error flaw => { ch with calls := ch.calls ++ [.done (.error (.settings flaw))] }
  | .ok request =>
    { ch with
      pool := ch.pool.get
      calls := ch.calls ++ [.getting request ch.pool.gets.length] }

def dialed (client : Client κ ι) (ch : Channel κ) (n : Nat) (failure : Option Failure) : Channel κ :=
  ch.withCaller n fun pool caller =>
    match failure with
    | none => pool.dialed caller client.fresh false
    | some failure => pool.dialFailed caller failure

def part (ch : Channel κ) (n caller : Nat) (discard : Bool) (next : Next) : Channel κ :=
  { ch with pool := ch.pool.put caller discard }.setPhase n (.parting caller next)

/-- A call looks at what the pool gave it. A connection that the remote has closed goes back to be
thrown away, and the call wants another one. -/
def begin (client : Client κ ι) (ch : Channel κ) (n : Nat) : Channel κ :=
  match ch.calls[n]? with
  | some (.getting request caller) =>
    match ch.pool.gets[caller]? with
    | some (.failed failure) => ch.answer n (.error failure)
    | some (.holding c) =>
      if (ch.pool.conns[c]?).any (client.isClosed ·.content) then ch.part n caller true (.renew request)
      else (ch.modifyConn c (client.send request)).setPhase n (.exchanging request caller)
    | _ => ch
  | _ => ch

/-- Whether an exchange with this result ran to the end of a response. -/
def isWhole : Except Failure RpcClient.Response → Bool
  | .ok _ | .error (.httpStatus _ _) => true
  | .error _ => false

def conclude (ch : Channel κ) (n caller : Nat) (result : Except Failure RpcClient.Response) : Channel κ :=
  ch.part n caller (!isWhole result) (.answer result)

def finish (client : Client κ ι) (ch : Channel κ) (n : Nat) : Channel κ :=
  match ch.calls[n]? with
  | some (.exchanging _ caller) =>
    match ch.pool.gets[caller]? with
    | some (.holding c) =>
      match (ch.pool.conns[c]?).bind (client.result? ·.content) with
      | some result => (ch.modifyConn c client.reset).conclude n caller (exchangeOutcome result)
      | none => ch
    | _ => ch
  | _ => ch

def leave (ch : Channel κ) (n : Nat) : Channel κ :=
  match ch.calls[n]? with
  | some (.parting caller next) =>
    let pool := ch.pool.giveBack caller
    match next with
    | .answer result => { ch with pool }.answer n result
    | .renew request => { ch with pool := pool.get }.setPhase n (.getting request pool.gets.length)
    | .drop => { ch with pool }.setPhase n .dropped
  | _ => ch

def deadline (ch : Channel κ) (n : Nat) : Channel κ :=
  match ch.calls[n]? with
  | some (.exchanging _ caller) => ch.conclude n caller (.error .timeout)
  | _ => ch.withCaller n Pool.deadline

def cancel (ch : Channel κ) (n : Nat) : Channel κ :=
  match ch.calls[n]? with
  | some (.exchanging _ caller) => ch.conclude n caller (.error .timeout)
  | _ => ch.withCaller n Pool.cancel

/-- The caller of a call drops it. Looking for a connection in the pool does not pause, so that nothing
is dropped meanwhile. -/
def drop (ch : Channel κ) (n : Nat) : Channel κ :=
  match ch.calls[n]? with
  | some (.exchanging _ caller) | some (.getting _ caller) =>
    match ch.pool.gets[caller]? with
    | some .picking => ch
    | some (.holding _) => { ch with pool := ch.pool.drop caller }.setPhase n (.parting caller .drop)
    | _ => { ch with pool := ch.pool.drop caller }.setPhase n .dropped
  | _ => ch

def step (client : Client κ ι) (ch : Channel κ) : Event ι → Channel κ
  | .start request => ch.start request
  | .resume n => ch.withCaller n Pool.resume
  | .pick n => ch.withCaller n Pool.pick
  | .dialed n failure => ch.dialed client n failure
  | .begin n => ch.begin client n
  | .finish n => ch.finish client n
  | .leave n => ch.leave n
  | .deadline n => ch.deadline n
  | .cancel n => ch.cancel n
  | .drop n => ch.drop n
  | .meet c input => ch.modifyConn c (client.meet input)

def run (client : Client κ ι) (ch : Channel κ) (events : List (Event ι)) : Channel κ :=
  events.foldl (step client) ch

def isOpen (client : Client κ ι) (ch : Channel κ) (c : Nat) : Bool :=
  (ch.pool.conns[c]?).any fun conn => !conn.closed && !client.isClosed conn.content

end Channel
end RpcClient.Http
