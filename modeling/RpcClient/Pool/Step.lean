import RpcClient.Pool.Basic

/-!
The steps of a pool. Callers, readers and the clock take them in any order; a step that is not
possible changes nothing.
-/
namespace RpcClient.Pool

variable {κ σ : Type}

inductive Event (κ : Type) where
  /-- A caller wants a connection. -/
  | get
  /-- A caller notices that it has a place. -/
  | resume (g : Nat)
  /-- A caller takes the connection returned last, or starts to connect if there is none. -/
  | pick (g : Nat)
  /-- The attempt of a caller to connect succeeds, with or without a side to read from. -/
  | dialed (g : Nat) (content : κ) (readable : Bool)
  | dialFailed (g : Nat) (failure : Failure)
  | deadline (g : Nat)
  | cancel (g : Nat)
  /-- A caller loses interest, or drops the connection that it holds. -/
  | drop (g : Nat)
  /-- A caller parts with the connection that it holds, which is to be kept or to be closed. -/
  | put (g : Nat) (discard : Bool)
  /-- A caller that has parted with its connection gives its place back. -/
  | giveBack (g : Nat)
  /-- A caller closes the connection that it holds. -/
  | close (g : Nat)
  /-- A caller changes the content of the connection that it holds. -/
  | replace (g : Nat) (content : κ)
  | received (c : Nat) (bytes : Bytes)
  | ended (c : Nat)
  | readFailed (c : Nat) (flaw : TransportFlaw)
  /-- The reader of a connection notices that it is closed. -/
  | noticed (c : Nat)
  /-- The reader of a connection that has met the end closes it. -/
  | readerStops (c : Nat)

/-- A caller wants a connection. It gets a place if there is one left, and else waits. -/
def get (p : Pool κ σ) : Pool κ σ :=
  if 0 < p.available then { p with available := p.available - 1, gets := p.gets ++ [.granted] }
  else { p with queue := p.queue ++ [p.gets.length], gets := p.gets ++ [.queued] }

def resume (p : Pool κ σ) (g : Nat) : Pool κ σ :=
  match p.gets[g]? with
  | some .granted => p.setPhase g .picking
  | _ => p

/-- A caller takes the connection returned last. It lets go of one that is closed and goes on
looking; where there is none left, it starts to connect. -/
def pick (p : Pool κ σ) (g : Nat) : Pool κ σ :=
  match p.gets[g]? with
  | some .picking =>
    match p.free with
    | [] => p.setPhase g .dialing
    | c :: free =>
      let p := { p with free }
      if p.isClosed c then p else p.setPhase g (.holding c)
  | _ => p

/-- The attempt of a caller to connect succeeds. A connection is read from if there is a handler for
what it receives. -/
def dialed [Inhabited σ] (p : Pool κ σ) (g : Nat) (content : κ) (readable : Bool) : Pool κ σ :=
  match p.gets[g]? with
  | some .dialing =>
    let reader := if readable && p.handler.isSome then Reader.reading else .absent
    let conn : Connection κ σ := { content, state := default, reader }
    { p with conns := p.conns ++ [conn] }.setPhase g (.holding p.conns.length)
  | _ => p

def dialFailed (p : Pool κ σ) (g : Nat) (failure : Failure) : Pool κ σ :=
  match p.gets[g]? with
  | some .dialing => (p.setPhase g (.failed failure)).release
  | _ => p

def cancel (p : Pool κ σ) (g : Nat) : Pool κ σ :=
  match p.gets[g]? with
  | some .queued => (p.leaveQueue g).setPhase g (.failed .poolTimeout)
  | some .granted => (p.setPhase g (.failed .poolTimeout)).release
  | _ => p

/-- The deadline of a caller has passed while it waits for a place or connects. -/
def deadline (p : Pool κ σ) (g : Nat) : Pool κ σ :=
  match p.gets[g]? with
  | some .dialing => (p.setPhase g (.failed .poolTimeout)).release
  | _ => p.cancel g

def drop (p : Pool κ σ) (g : Nat) : Pool κ σ :=
  match p.gets[g]? with
  | some .queued => (p.leaveQueue g).setPhase g .dropped
  | some .granted | some .dialing => (p.setPhase g .dropped).release
  | some (.holding c) => (p.closeConn c).setPhase g .parted
  | _ => p

/-- A caller parts with its connection. An open one that is not to be closed is kept. -/
def put (p : Pool κ σ) (g : Nat) (discard : Bool) : Pool κ σ :=
  match p.gets[g]? with
  | some (.holding c) =>
    if discard || p.isClosed c || p.maxActive ≤ p.free.length then (p.closeConn c).setPhase g .parted
    else { p with free := c :: p.free }.setPhase g .parted
  | _ => p

def giveBack (p : Pool κ σ) (g : Nat) : Pool κ σ :=
  match p.gets[g]? with
  | some .parted => (p.setPhase g .returned).release
  | _ => p

def close (p : Pool κ σ) (g : Nat) : Pool κ σ :=
  match p.gets[g]? with
  | some (.holding c) => p.closeConn c
  | _ => p

def replace (p : Pool κ σ) (g : Nat) (content : κ) : Pool κ σ :=
  match p.gets[g]? with
  | some (.holding c) => p.modifyConn c fun conn => { conn with content }
  | _ => p

/-- The reader of a connection stops reading, and lets the handler know. -/
def stopReading (p : Pool κ σ) (c : Nat) (failure : Failure) : Pool κ σ :=
  match p.handler with
  | none => p
  | some handler =>
    p.modifyConn c fun conn =>
      match conn.reader with
      | .reading => { conn with reader := .stopping, state := handler.onClose failure conn.state }
      | _ => conn

/-- Bytes arrive on a connection and go to the handler, behind those that it left. -/
def received (p : Pool κ σ) (c : Nat) (bytes : Bytes) : Pool κ σ :=
  match p.handler, p.conns[c]? with
  | some handler, some conn =>
    match conn.reader with
    | .reading =>
      let (buffer, state, refusal) := handler.onData (conn.buffer ++ bytes) conn.state
      let p := p.modifyConn c fun conn => { conn with buffer, state }
      match refusal with
      | none => p
      | some failure => p.stopReading c failure
    | _ => p
  | _, _ => p

def noticed (p : Pool κ σ) (c : Nat) : Pool κ σ :=
  if p.isClosed c then p.stopReading c .connectionClosed else p

def readerStops (p : Pool κ σ) (c : Nat) : Pool κ σ :=
  p.modifyConn c fun conn =>
    match conn.reader with
    | .stopping => { conn with reader := .stopped, closed := true }
    | _ => conn

def step [Inhabited σ] (p : Pool κ σ) : Event κ → Pool κ σ
  | .get => p.get
  | .resume g => p.resume g
  | .pick g => p.pick g
  | .dialed g content readable => p.dialed g content readable
  | .dialFailed g failure => p.dialFailed g failure
  | .deadline g => p.deadline g
  | .cancel g => p.cancel g
  | .drop g => p.drop g
  | .put g discard => p.put g discard
  | .giveBack g => p.giveBack g
  | .close g => p.close g
  | .replace g content => p.replace g content
  | .received c bytes => p.received c bytes
  | .ended c => p.stopReading c .connectionClosed
  | .readFailed c flaw => p.stopReading c (.io flaw)
  | .noticed c => p.noticed c
  | .readerStops c => p.readerStops c

def run [Inhabited σ] (p : Pool κ σ) (events : List (Event κ)) : Pool κ σ :=
  events.foldl step p

end RpcClient.Pool
