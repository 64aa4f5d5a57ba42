import RpcClient.Session.Step
import Std.Internal.UV.DNS
import Std.Internal.UV.TCP

/-!
Running a session over the network: sockets stand behind its links. What happens next is up to the
session; here bytes are moved and connections are made.
-/
namespace RpcClient.Network

open Std.Internal.UV (DNS.getAddrInfo)
open Std.Internal.UV.TCP (Socket)

/-- What the system does for us meanwhile. -/
abbrev Pending (α : Type) := Task (Option (Except IO.Error α))

structure Wire where
  socket : Socket
  sending : Option (Pending Unit) := none
  receiving : Option (Pending (Option ByteArray)) := none
  isShut : Bool := false

/-- A session with what stands behind its links and its attempts to connect. -/
structure Hub where
  session : Session
  wires : Array Wire := #[]
  attempts : List (Session.Dial × Task (Except IO.Error Socket)) := []

/-- How many bytes are received at once at most. -/
def chunkSize : UInt64 := 16384

/-- How long to wait before looking for news again, in milliseconds. -/
def pause : UInt32 := 1

/-- What an error of the system means to a call. -/
def flawOf (error : IO.Error) : TransportFlaw :=
  let text := toString error
  if text.endsWith "connection refused)" then .connectionRefused
  else if text.endsWith "network is unreachable)" then .networkUnreachable
  else if text.endsWith "broken pipe)" then .brokenPipe
  else .other text

/-- The host and the port of an address. An address of version 6 stands in square brackets. -/
def splitAddress (address : String) : Except TransportFlaw (String × UInt16) :=
  match Listener.splitLastColon address with
  | none => .error .notAddress
  | some (host, port) =>
    match Number.read? 65536 port with
    | none => .error .badPort
    | some port =>
      let inner := (host.toList.dropWhile (· == '[')).takeWhile (· ≠ ']')
      .ok (if host.startsWith "[" then String.ofList inner else host, UInt16.ofNat port)

def await {α : Type} (promise : IO.Promise (Except IO.Error α)) : IO α := do
  match ← IO.wait promise.result? with
  | some (.ok a) => return a
  | some (.error error) => throw error
  | none => throw (IO.userError "operation abandoned")

/-- Connects to the first address of a host that accepts. -/
def connect (host : String) (port : UInt16) : IO Socket := do
  let mut error := IO.userError "no address of the host is known"
  for address in ← await (← DNS.getAddrInfo host "" 0) do
    try
      let socket ← Socket.new
      match address with
      | .v4 addr => await (← socket.connect (.v4 { addr, port }))
      | .v6 addr => await (← socket.connect (.v6 { addr, port }))
      return socket
    catch e =>
      error := e
  throw error

/-- Lets the session do what it can. -/
def settle (hub : Hub) : Hub := Id.run do
  let mut session := hub.session
  let mut isBusy := true
  while isBusy do
    match session.act? with
    | some next => session := next
    | none => isBusy := false
  return { hub with session }

/-- Answers an attempt to connect, if the session still waits for it. -/
def answer (hub : Hub) (dial : Session.Dial) (answer : Session.Answer) : Hub :=
  { hub with session := { hub.session with
      dials := hub.session.dials.map fun other =>
        if other.replica = dial.replica ∧ other.call = dial.call ∧ other.since = dial.since then
          { other with answer := some answer }
        else other } }

/-- Starts the attempts to connect that the session has asked for. -/
def startAttempts (hub : Hub) : IO Hub := do
  let mut hub := hub
  for dial in hub.session.dials do
    let isKnown := hub.attempts.any fun (other, _) =>
      other.replica = dial.replica ∧ other.call = dial.call ∧ other.since = dial.since
    if dial.answer.isNone ∧ !isKnown then
      match dial.target with
      | .listener _ => hub := answer hub dial .unknown
      | .address address =>
        match splitAddress address with
        | .error flaw => hub := answer hub dial (.flawed flaw)
        | .ok (host, port) =>
          let task ← IO.asTask (connect host port) .dedicated
          hub := { hub with attempts := (dial, task) :: hub.attempts }
  return hub

/-- Takes note of the attempts to connect that have ended. -/
def endAttempts (hub : Hub) : IO Hub := do
  let mut hub := hub
  for (dial, task) in hub.attempts do
    if ← IO.hasFinished task then
      hub := { hub with
        attempts := hub.attempts.filter fun (other, _) =>
          other.replica ≠ dial.replica ∨ other.call ≠ dial.call ∨ other.since ≠ dial.since }
      match task.get with
      | .error error => hub := answer hub dial (.flawed (flawOf error))
      | .ok socket =>
        let link := hub.session.links.length
        let session := { hub.session with links := hub.session.links ++ [{}] }
        hub := answer { hub with session, wires := hub.wires.push { socket } } dial
          (.connected link)
  return hub

def send (link : Link) (wire : Wire) : IO (Link × Wire) := do
  match wire.sending with
  | some task =>
    if !(← IO.hasFinished task) then return (link, wire)
    match task.get with
    | some (.ok ()) => return (link, { wire with sending := none })
    | _ => return (link.dropRemote, { wire with sending := none })
  | none =>
    match link.remoteRead with
    | (link, .bytes bytes) =>
      let promise ← wire.socket.send #[ByteArray.mk bytes.toArray]
      return (link, { wire with sending := some promise.result? })
    | (_, .ended) =>
      if wire.isShut then return (link, wire)
      discard wire.socket.shutdown
      return (link, { wire with isShut := true })
    | (_, .nothing) => return (link, wire)

def receive (link : Link) (wire : Wire) : IO (Link × Wire) := do
  match wire.receiving with
  | some task =>
    if !(← IO.hasFinished task) then return (link, wire)
    match task.get with
    | some (.ok (some bytes)) =>
      return ((link.remoteWrite bytes.toList).1, { wire with receiving := none })
    | _ => return (link.dropRemote, { wire with receiving := none })
  | none =>
    if link.remoteOpen && link.clientOpen && link.toClient.isEmpty then
      let promise ← wire.socket.recv? chunkSize
      return (link, { wire with receiving := some promise.result? })
    else return (link, wire)

def move (hub : Hub) : IO Hub := do
  let mut hub := hub
  for l in [0:hub.wires.size] do
    match hub.session.links[l]?, hub.wires[l]? with
    | some link, some wire =>
      try
        let (link, wire) ← send link wire
        let (link, wire) ← receive link wire
        hub := { hub with
          session := hub.session.setLink l link
          wires := hub.wires.setIfInBounds l wire }
      catch _ =>
        hub := { hub with session := hub.session.setLink l link.dropRemote }
    | _, _ => pure ()
  return hub

/-- Runs a session until all of its calls are over. -/
def run (session : Session) : IO Session := do
  let start ← IO.monoMsNow
  let mut hub := settle { session }
  while !hub.session.isQuiet do
    hub ← endAttempts (← startAttempts hub)
    hub ← move (settle hub)
    let now ← IO.monoMsNow
    hub := settle { hub with session := { hub.session with now := now - start } }
    if !hub.session.isQuiet then IO.sleep pause
  return hub.session

end RpcClient.Network
