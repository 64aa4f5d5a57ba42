import RpcClient.Session.Step
import RpcClient.Trial.Remote
import RpcClient.Trial.Simulation

/-!
Trying out calls: a session against a scripted remote in the same process. There is no network around
the trial.
-/
namespace RpcClient.Trial

namespace Numbered

/-- The key of the header in which a numbered channel tells the timeout of a request. -/
def timeoutKey : String := "timeout"

def answer (number : Nat) (request : Request) : Except Interruption Response :=
  match Utf8.decodeLenient request.data with
  | "fail" => .error (.failed .connectionClosed)
  | "panic" => .error (.panicked (some s!"replica {number} exploded"))
  | "panic_str" => .error (.panicked (some "plain text"))
  | "panic_any" => .error (.panicked none)
  | _ =>
    .ok {
      header := request.header.set timeoutKey (toString request.timeoutMs.toNat)
      contentType := request.contentType
      data := Utf8.encode (toString number)
      success := true }

/-- Builds numbered channels. It remembers how many it was asked for, and refuses the one that the
settings name. -/
def builder : Channel.Builder Nat Replica := fun _ settings => do
  let number ← getModify (· + 1)
  match Entries.get? "fail_at" settings.ext with
  | some (.number (.int n)) =>
    if n = number then throw (.unavailable (.other s!"replica {number} refused"))
    return .inProcess (answer number)
  | _ => return .inProcess (answer number)

/-- The name of the numbered channels. -/
def builderName : String := "replica"

/-- The registry of a trial, with or without the channels of this library. -/
def registry (isEmpty : Bool) : Channel.Registry Nat Replica :=
  let base : Channel.Registry Nat Replica :=
    if isEmpty then .empty else .standard fun channel => .linked channel []
  base.register builderName builder

end Numbered

structure CallTrial where
  session : Session
  remote : RemoteState

namespace CallTrial

/-- The remote with the links of the session. -/
def connectedRemote (t : CallTrial) : Remote :=
  { t.remote with links := t.session.links }

def withRemote (t : CallTrial) (remote : Remote) : CallTrial where
  session := { t.session with links := remote.links }
  remote := remote.toRemoteState

/-- Why an address cannot be dialled. -/
def addressFlaw (address : String) : TransportFlaw :=
  match Listener.splitLastColon address with
  | none => .notAddress
  | some (_, port) => if (Number.read? 65536 port).isSome then .networkUnreachable else .badPort

/-- When the remote accepts a connection, if it is the one that is dialled. -/
def acceptTime? (t : CallTrial) (dial : Session.Dial) : Option Nat :=
  if dial.answer.isNone ∧ dial.target = .listener t.remote.script.listener then
    some (dial.since + t.remote.script.acceptDelay)
  else none

/-- Answers an attempt to connect, as soon as it can be answered. -/
def answerDial? (t : CallTrial) (k : Nat) : Option CallTrial :=
  match t.session.dials[k]? with
  | none => none
  | some dial =>
    let answered (t : CallTrial) (answer : Session.Answer) : CallTrial :=
      { t with session := { t.session with
          dials := t.session.dials.set k { dial with answer := some answer } } }
    if dial.answer.isSome then none
    else
      match dial.target with
      | .address address => some (answered t (.flawed (addressFlaw address)))
      | .listener _ =>
        match t.acceptTime? dial with
        | none => some (answered t .unknown)
        | some time =>
          if time ≤ t.session.now then
            some (answered (t.withRemote t.connectedRemote.accept)
              (.connected t.session.links.length))
          else none

/-- Time in the trial. -/
def simulation : Simulation CallTrial where
  now t := t.session.now
  setNow t now := { t with session := { t.session with now } }
  act? t :=
    (t.session.act?.map fun session => { t with session }) <|>
      (List.range t.session.dials.length).findSome? t.answerDial? <|>
      (t.connectedRemote.act? t.session.now).map t.withRemote
  timers t :=
    t.session.calls.flatMap Session.Call.timers ++ t.session.dials.filterMap t.acceptTime? ++
      t.connectedRemote.timers

inductive Step where
  /-- Makes calls together: each with the time after which it starts. -/
  | calls (calls : List (Nat × Request × Option Nat))
  /-- The remote drops every connection. -/
  | hangUp
  | sleep (duration : Nat)

structure View where
  results : List (Except Failure Response)
  received : List Received
  stats : List Stat

/-- Does a step and lets a millisecond pass. -/
def step (t : CallTrial) (s : Step) : CallTrial × View :=
  let t := { t with session := { t.session with calls := [] } }
  let t :=
    match s with
    | .calls calls =>
      let session := calls.foldl (fun session (at_, request, cancelAfter) =>
        session.schedule { startAt := t.session.now + at_, request, cancelAfter }) t.session
      simulation.waitUntil (·.session.isQuiet) { t with session }
    | .hangUp => t.withRemote t.connectedRemote.hangUpAll
    | .sleep duration => simulation.pass duration t
  let results := t.session.calls.map Session.Call.result
  let t := simulation.pass 1 (simulation.settle t)
  let (remote, received) := t.connectedRemote.look
  let t := t.withRemote remote
  ({ t with session := { t.session with stats := [] } },
    ⟨results, received, t.session.stats.reverse⟩)

end CallTrial
end RpcClient.Trial
