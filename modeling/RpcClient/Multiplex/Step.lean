import RpcClient.Multiplex.Channel

/-!
The steps of a multiplexed channel. Calls, readers and the clock take them in any order; a step that
is not possible changes nothing. Between two steps, other calls and readers may take theirs.
-/
namespace RpcClient.Multiplex

inductive DirectInput where
  | bytes (bytes : Bytes)
  | ended
  | failed (flaw : TransportFlaw)
  deriving DecidableEq, Repr, Inhabited

inductive Event where
  | start (request : Request)
  | seek (n : Nat)
  | dialed (n : Nat) (failure : Option Failure)
  /-- A call asks for the writer, or looks at the writer that it got. -/
  | enter (n : Nat)
  | write (n count : Nat)
  | writeFailed (n : Nat) (flaw : TransportFlaw)
  | abort (n : Nat)
  /-- A call closes the connection that it could not write on. -/
  | giveUp (n : Nat)
  /-- A call takes the connection that it could not write on out of use. -/
  | clear (n : Nat)
  /-- A call that waits notices its response or the end of the connection. -/
  | resume (n : Nat)
  | deadline (n : Nat)
  | cancel (n : Nat)
  | drop (n : Nat)
  | received (c : Nat) (bytes : Bytes)
  /-- The reader of a connection takes the next frame off its buffer. -/
  | decode (c : Nat)
  | ended (c : Nat)
  | readerStops (c : Nat)
  | directDialed (n : Nat) (flaw : Option TransportFlaw)
  | directWrite (n count : Nat)
  | directWriteFailed (n : Nat) (flaw : TransportFlaw)
  | directRead (n : Nat) (input : DirectInput)

namespace Channel

/-- Starts a call: gives it a number and registers it as a waiter. -/
def start (ch : Channel) (request : Request) : Channel :=
  let n := ch.calls.length
  let id := nextId ch.lastId
  let requestId := id.toUInt64
  let ch := { ch with lastId := id }
  match ch.codec.encode { ch.codec.toFrame request with requestId } with
  | .error error =>
    { ch with calls := ch.calls ++ [{ requestId, phase := .done (.error (.wire error)) }] }
  | .ok wire =>
    if request.target ≠ "" then
      { ch with calls := ch.calls ++ [{ requestId, wire, phase := .direct request.target .dialing }] }
    else
      let ch := ch.register requestId n
      { ch with calls := ch.calls ++ [{ requestId, wire, phase := .seeking }] }

/-- A call looks for the shared connection, and connects if there is none. -/
def seek (ch : Channel) (n : Nat) : Channel :=
  match ch.phase? n, ch.dialer with
  | some .seeking, none =>
    match ch.open? with
    | some c => ch.setPhase n (.entering c)
    | none => { ch.setPhase n .dialing with dialer := some n }
  | _, _ => ch

def dialed (ch : Channel) (n : Nat) (failure : Option Failure) : Channel :=
  match ch.phase? n with
  | some .dialing =>
    let ch := { ch with dialer := none }
    match failure with
    | some failure => ch.fail n failure
    | none =>
      let c := ch.conns.length
      { ch.setPhase n (.entering c) with conns := ch.conns ++ [.fresh], current := some c }
  | _ => ch

def enter (ch : Channel) (n : Nat) : Channel :=
  match ch.phase? n with
  | some (.entering c) =>
    match ch.conns[c]?.bind Connection.holder with
    | none => (ch.modifyConn c fun conn => { conn with holder := some n }).startWriting n c
    | some _ =>
      (ch.modifyConn c fun conn => { conn with queue := conn.queue ++ [n] }).setPhase n (.queued c)
  | some (.queued c) =>
    if ch.conns[c]?.bind Connection.holder = some n then ch.startWriting n c else ch
  | _ => ch

/-- A call writes bytes. With the last one it gives the writer back and waits for its response. -/
def write (ch : Channel) (n count : Nat) : Channel :=
  match ch.phase? n with
  | some (.writing c rest) =>
    if rest.length ≤ count then ((ch.dropIfClosed c).release c).setPhase n (.waiting c)
    else ch.setPhase n (.writing c (rest.drop count))
  | _ => ch

def stopWriting (ch : Channel) (n c : Nat) (failure : Failure) : Channel :=
  ((ch.dropIfClosed c).release c).setPhase n (.failed c failure)

def writeFailed (ch : Channel) (n : Nat) (flaw : TransportFlaw) : Channel :=
  match ch.phase? n with
  | some (.writing c _) => ch.stopWriting n c (.unavailable (.write flaw))
  | _ => ch

def abort (ch : Channel) (n : Nat) : Channel :=
  match ch.phase? n with
  | some (.writing c _) => if ch.isClosed c then ch.stopWriting n c .connectionClosed else ch
  | _ => ch

def giveUp (ch : Channel) (n : Nat) : Channel :=
  match ch.phase? n with
  | some (.expired c) => (ch.close c .broken).fail n .timeout
  | some (.failed c failure) => (ch.close c .broken).setPhase n (.clearing c failure)
  | _ => ch

/-- A call takes the connection that it could not write on out of use, unless another one has taken
its place. -/
def clear (ch : Channel) (n : Nat) : Channel :=
  match ch.phase? n, ch.dialer with
  | some (.clearing c failure), none =>
    { ch with current := ch.current.filter (· != c) }.retry n failure
  | _, _ => ch

def resume (ch : Channel) (n : Nat) : Channel :=
  match ch.phase? n with
  | some (.waiting c) =>
    ch.settle n c (if ch.isClosed c then ch.fail n (ch.closeFailure c) else ch)
  | _ => ch

/-- A call runs out of time, or its caller cancels it, where it notices both. A response that it was
given still counts. -/
def expire (ch : Channel) (n : Nat) : Channel :=
  match ch.phase? n with
  | some .seeking | some (.direct _ _) => ch.fail n .timeout
  | some .dialing => { ch with dialer := none }.fail n .timeout
  | some (.waiting c) => ch.settle n c (ch.fail n .timeout)
  | _ => ch

/-- The deadline of a call has passed. While it waits for the writer it leaves the queue, while it
writes it leaves the connection with part of a frame, and while it takes a connection out of use it
goes on. -/
def deadline (ch : Channel) (n : Nat) : Channel :=
  match ch.phase? n with
  | some (.queued c) =>
    if ch.conns[c]?.bind Connection.holder = some n then ch else (ch.leaveQueue c n).fail n .timeout
  | some (.writing c _) => (ch.release c).setPhase n (.expired c)
  | some (.clearing _ failure) => ch.retry n failure
  | _ => ch.expire n

/-- The caller of a call drops it. Calls that are about to do something do it first. -/
def drop (ch : Channel) (n : Nat) : Channel :=
  match ch.phase? n with
  | some (.seeking) | some (.clearing _ _) | some (.waiting _) | some (.direct _ _) =>
    ch.finish n .dropped
  | some .dialing => { ch with dialer := none }.finish n .dropped
  | some (.queued c) =>
    if ch.conns[c]?.bind Connection.holder = some n then (ch.release c).finish n .dropped
    else (ch.leaveQueue c n).finish n .dropped
  | some (.writing c _) => (ch.release c).finish n .dropped
  | _ => ch

def received (ch : Channel) (c : Nat) (bytes : Bytes) : Channel :=
  ch.modifyConn c fun conn =>
    match conn.reader with
    | .reading => { conn with buffer := conn.buffer ++ bytes, reader := .decoding }
    | _ => conn

/-- What the reader of a connection finds at the front of its buffer, if it takes frames off it. -/
def decoded? (ch : Channel) (c : Nat) : Option Decoded :=
  (ch.conns[c]?).bind fun conn =>
    if conn.reader = .decoding then some (ch.codec.decode conn.buffer) else none

/-- The reader of a connection takes the next frame off its buffer and hands a response to its
waiter. -/
def decode (ch : Channel) (c : Nat) : Channel :=
  match ch.decoded? c with
  | none => ch
  | some .incomplete => ch.modifyConn c fun conn => { conn with reader := .reading }
  | some (.failed _ buffer) =>
    ch.modifyConn c fun conn => { conn with reader := .stopping .malformed, buffer }
  | some (.frame frame buffer) =>
    let ch := ch.modifyConn c fun conn => { conn with buffer }
    if frame.isResponse then ch.deliver frame else ch

def ended (ch : Channel) (c : Nat) : Channel :=
  ch.modifyConn c fun conn =>
    match conn.reader with
    | .reading => { conn with reader := .stopping .remote }
    | _ => conn

def readerStops (ch : Channel) (c : Nat) : Channel :=
  match ch.conns[c]? with
  | some conn =>
    match conn.reader with
    | .stopping reason =>
      (ch.close c reason).modifyConn c fun conn => { conn with reader := .stopped }
    | .reading =>
      if conn.closed then ch.modifyConn c fun conn => { conn with reader := .stopped } else ch
    | _ => ch
  | none => ch

def directDialed (ch : Channel) (n : Nat) (flaw : Option TransportFlaw) : Channel :=
  match ch.phase? n with
  | some (.direct address .dialing) =>
    match flaw with
    | some flaw => ch.fail n (.connectionFailed (.dial address flaw))
    | none => ch.modifyCall n fun call => { call with phase := .direct address (.writing call.wire) }
  | _ => ch

/-- A direct call writes bytes. With the last one it starts to read. -/
def directWrite (ch : Channel) (n count : Nat) : Channel :=
  match ch.phase? n with
  | some (.direct address (.writing rest)) =>
    ch.setPhase n <| .direct address <|
      if rest.length ≤ count then .reading [] else .writing (rest.drop count)
  | _ => ch

def directWriteFailed (ch : Channel) (n : Nat) (flaw : TransportFlaw) : Channel :=
  match ch.phase? n with
  | some (.direct _ (.writing _)) => ch.fail n (.unavailable (.write flaw))
  | _ => ch

/-- A direct call reads up to the first response, whatever its number. -/
def directRead (ch : Channel) (n : Nat) (input : DirectInput) : Channel :=
  match ch.phase? n with
  | some (.direct address (.reading buffer)) =>
    match input with
    | .failed flaw => ch.fail n (.unavailable (.read flaw))
    | .ended => ch.fail n .connectionClosed
    | .bytes bytes =>
      let drained := ch.codec.drain (buffer ++ bytes)
      match drained.frames.find? Frame.isResponse with
      | some frame => ch.answer n frame
      | none =>
        match drained.error with
        | some error => ch.fail n (.wire error)
        | none => ch.setPhase n (.direct address (.reading drained.rest))
  | _ => ch

def step (ch : Channel) : Event → Channel
  | .start request => ch.start request
  | .seek n => ch.seek n
  | .dialed n failure => ch.dialed n failure
  | .enter n => ch.enter n
  | .write n count => ch.write n count
  | .writeFailed n flaw => ch.writeFailed n flaw
  | .abort n => ch.abort n
  | .giveUp n => ch.giveUp n
  | .clear n => ch.clear n
  | .resume n => ch.resume n
  | .deadline n => ch.deadline n
  | .cancel n => ch.expire n
  | .drop n => ch.drop n
  | .received c bytes => ch.received c bytes
  | .decode c => ch.decode c
  | .ended c => ch.ended c
  | .readerStops c => ch.readerStops c
  | .directDialed n flaw => ch.directDialed n flaw
  | .directWrite n count => ch.directWrite n count
  | .directWriteFailed n flaw => ch.directWriteFailed n flaw
  | .directRead n input => ch.directRead n input

def run (ch : Channel) (events : List Event) : Channel :=
  events.foldl step ch

end Channel
end RpcClient.Multiplex
