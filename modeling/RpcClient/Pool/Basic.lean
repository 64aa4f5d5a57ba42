import RpcClient.Bytes
import RpcClient.Failure

/-!
The state of a pool of connections.

A caller gets a place in the pool and then a connection: the one returned last of those that are
still open, or a new one. It parts with the connection first and gives its place back behind that. No
more callers have a place than the pool has places; the others wait in order.
-/
namespace RpcClient

namespace Pool

/-- What a pool does with the bytes that its connections receive. `σ` is what it remembers of a
connection. -/
structure Handler (σ : Type) where
  /-- Takes bytes off the front of a buffer, and refuses them or not. -/
  onData : (buffer : Bytes) → σ → Bytes × σ × Option Failure
  /-- Takes note of the end of a connection. -/
  onClose : Failure → σ → σ

inductive Reader where
  | absent
  /-- It waits for bytes, or for the connection to be closed. -/
  | reading
  /-- It has met the end and is about to close the connection. -/
  | stopping
  | stopped
  deriving DecidableEq, Repr, Inhabited

structure Connection (κ σ : Type) where
  content : κ
  state : σ
  closed : Bool := false
  reader : Reader := .absent
  buffer : Bytes := []

inductive Phase where
  /-- It waits for a place. -/
  | queued
  /-- It was given a place and does not know it yet. -/
  | granted
  | picking
  | dialing
  | holding (conn : Nat)
  /-- It has parted with its connection and still has its place. -/
  | parted
  /-- It has given back what it held. -/
  | returned
  | failed (failure : Failure)
  /-- It lost interest before it held anything. -/
  | dropped
  deriving DecidableEq, Repr, Inhabited

end Pool

/-- A pool. Callers and connections are numbered in the order in which they came. -/
structure Pool (κ σ : Type) where
  maxActive : Nat
  handler : Option (Pool.Handler σ)
  available : Nat
  /-- The callers that wait for a place, in order. -/
  queue : List Nat := []
  /-- The connections that nobody holds, the one returned last in front. -/
  free : List Nat := []
  gets : List Pool.Phase := []
  conns : List (Pool.Connection κ σ) := []

namespace Pool

variable {κ σ : Type}

/-- A pool without connections. There is always a place. -/
def new (size : Nat) (handler : Option (Handler σ)) : Pool κ σ where
  maxActive := max size 1
  handler
  available := max size 1

def active (p : Pool κ σ) : Nat :=
  p.maxActive - p.available

def idle (p : Pool κ σ) : Nat :=
  p.free.length

def setPhase (p : Pool κ σ) (g : Nat) (phase : Phase) : Pool κ σ :=
  { p with gets := p.gets.set g phase }

def modifyConn (p : Pool κ σ) (c : Nat) (f : Connection κ σ → Connection κ σ) : Pool κ σ :=
  { p with conns := p.conns.modify c f }

def isClosed (p : Pool κ σ) (c : Nat) : Bool :=
  (p.conns[c]?.map Connection.closed).getD true

def closeConn (p : Pool κ σ) (c : Nat) : Pool κ σ :=
  p.modifyConn c fun conn => { conn with closed := true }

/-- Gives a place back: to the caller that waits longest, if there is one. -/
def release (p : Pool κ σ) : Pool κ σ :=
  match p.queue with
  | [] => { p with available := p.available + 1 }
  | g :: queue => { p with queue }.setPhase g .granted

def leaveQueue (p : Pool κ σ) (g : Nat) : Pool κ σ :=
  { p with queue := p.queue.filter (· != g) }

end Pool
end RpcClient
