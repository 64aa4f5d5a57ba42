import RpcClient.Deadline
import RpcClient.Invoker
import RpcClient.Link
import RpcClient.Listener

/-!
Sessions: an invoker with the calls that are under way and the connections that carry them.

What a session does is pure. Whoever runs it connects what is dialled, moves bytes between links and
the remotes behind them, and tells the time.
-/
namespace RpcClient

inductive Replica where
  /-- A channel, and the link that carries each of its connections. -/
  | linked (channel : Channel) (links : List Nat)
  /-- A channel that answers by itself. -/
  | inProcess (answer : Request → Except Interruption Response)

instance : Inhabited Replica := ⟨.inProcess fun _ => .error (.panicked none)⟩

namespace Session

inductive Target where
  /-- A host and a port, if the text is well-formed. -/
  | address (text : String)
  /-- A listener of the surrounding process. -/
  | listener (name : String)
  deriving DecidableEq, Repr, Inhabited

inductive Answer where
  /-- The link to what was dialled. -/
  | connected (link : Nat)
  | flawed (flaw : TransportFlaw)
  /-- There is no listener of that name. -/
  | unknown
  deriving DecidableEq, Repr, Inhabited

structure Dial where
  replica : Nat
  /-- The number of the call in its channel. -/
  call : Nat
  target : Target
  since : Nat
  answer : Option Answer := none
  deriving Repr, Inhabited

inductive Progress where
  | scheduled
  /-- A channel works on it: the number of the replica, the number of the call there, and the link
  that carries its connection if it has one of its own. -/
  | running (replica call : Nat) (request : Request) (deadline : Deadline) (link : Option Nat)
  | over (outcome : Invoker.Outcome)

structure Call where
  startAt : Nat
  request : Request
  cancelAfter : Option Nat := none
  progress : Progress := .scheduled

end Session

structure Session where
  now : Nat := 0
  invoker : Invoker Replica
  /-- Whether calls go straight to the only replica. -/
  isBare : Bool := false
  /-- Whether there is nothing to connect to but addresses. -/
  addressesOnly : Bool := false
  /-- The links in the order in which they were connected. -/
  links : List Link := []
  dials : List Session.Dial := []
  calls : List Session.Call := []
  /-- The notes taken since the last look, the newest first. -/
  stats : List Stat := []

namespace Session

/-- The channel of a replica, and the links of its connections. -/
def channel? (s : Session) (r : Nat) : Option (Channel × List Nat) :=
  match s.invoker.replicas[r]? with
  | some (.linked channel links) => some (channel, links)
  | _ => none

def setChannel (s : Session) (r : Nat) (channel : Channel) : Session :=
  { s with invoker := { s.invoker with
      replicas := s.invoker.replicas.modify r fun
        | .linked _ links => .linked channel links
        | replica => replica } }

def addLink (s : Session) (r l : Nat) : Session :=
  { s with invoker := { s.invoker with
      replicas := s.invoker.replicas.modify r fun
        | .linked channel links => .linked channel (links ++ [l])
        | replica => replica } }

def setMultiplexed (s : Session) (r : Nat) (ch : Multiplex.Channel) : Session :=
  match s.channel? r with
  | some (.multiplexed listener _, _) => s.setChannel r (.multiplexed listener ch)
  | _ => s

def setPooled (s : Session) (r : Nat) (ch : Http.Channel Http.Connection) : Session :=
  match s.channel? r with
  | some (.pooled listener _, _) => s.setChannel r (.pooled listener ch)
  | _ => s

def setLink (s : Session) (l : Nat) (link : Link) : Session :=
  { s with links := s.links.set l link }

def setProgress (s : Session) (i : Nat) (progress : Progress) : Session :=
  { s with calls := s.calls.modify i fun call => { call with progress } }

/-- Records what becomes of a call. -/
def settleCall (s : Session) (i : Nat) (outcome : Invoker.Outcome) : Session :=
  { s.setProgress i (.over outcome) with stats := outcome.stat.toList ++ s.stats }

/-- Ends a call with what a channel did with its request. -/
def conclude (s : Session) (i : Nat) (request : Request) (result : Except Interruption Response) :
    Session :=
  if s.isBare then s.settleCall i { result := result.mapError Interruption.failure }
  else s.settleCall i (s.invoker.conclude request result)

def schedule (s : Session) (call : Call) : Session :=
  { s with calls := s.calls ++ [call] }

/-- Prepares a call: the invoker passes it through its callbacks and chooses a replica. -/
def dispatch (s : Session) (request : Request) :
    Session × Except Interruption Invoker.Dispatch :=
  if s.isBare then (s, .ok ⟨0, request⟩)
  else
    let (invoker, dispatch) := s.invoker.dispatch request
    ({ s with invoker }, dispatch)

def begin (channel : Channel) (request : Request) : Channel × Nat :=
  match channel with
  | .multiplexed listener ch => (.multiplexed listener (ch.start request), ch.calls.length)
  | .pooled listener ch => (.pooled listener (ch.start request), ch.calls.length)
  | .routed ch => (.routed (ch.step (.start request)), ch.calls.length)

/-- Starts a call. Its deadline counts from now. -/
def start (s : Session) (i : Nat) (call : Call) : Session :=
  match s.dispatch call.request with
  | (s, .error interruption) => s.settleCall i { result := .error interruption.failure }
  | (s, .ok ⟨r, request⟩) =>
    match s.invoker.replicas[r]? with
    | none => s.settleCall i { result := .error .missingChannel }
    | some (.inProcess answer) => s.conclude i request (answer request)
    | some (.linked channel _) =>
      let (channel, n) := begin channel request
      let deadline := Deadline.start request s.now call.cancelAfter
      (s.setChannel r channel).setProgress i (.running r n request deadline none)

def isQuiet (s : Session) : Bool :=
  s.calls.all fun call =>
    match call.progress with
    | .over _ => true
    | _ => false

def Call.result (call : Call) : Except Failure Response :=
  match call.progress with
  | .over outcome => outcome.result
  | _ => .error .timeout

/-- The moments at which a call may want to do something. -/
def Call.timers (call : Call) : List Nat :=
  match call.progress with
  | .over _ => []
  | .scheduled => [call.startAt]
  | .running _ _ _ deadline _ => deadline.expiry :: deadline.cancelAt.toList

end Session
end RpcClient
