import RpcClient.Bytes

/-!
Connections as those at their ends see them: two bounded buffers, one in each direction. What was
written before an end is dropped can still be read at the other one.
-/
namespace RpcClient

structure Link where
  /-- Bytes that the client wrote and the remote has not read. -/
  toRemote : Bytes := []
  /-- Bytes that the remote wrote and the client has not read. -/
  toClient : Bytes := []
  /-- Whether the client still holds its end. -/
  clientOpen : Bool := true
  /-- Whether the remote still holds its end. -/
  remoteOpen : Bool := true
  deriving Repr, Inhabited

namespace Link

/-- How many bytes a direction holds at most. -/
def capacity : Nat := 65536

/-- How many of some bytes fit behind those that a direction holds. -/
def fitting (held bytes : Bytes) : Nat :=
  (bytes.take (capacity - held.length)).length

def clientWrite (link : Link) (bytes : Bytes) : Link × Nat :=
  let count := fitting link.toRemote bytes
  ({ link with toRemote := link.toRemote ++ bytes.take count }, count)

def remoteWrite (link : Link) (bytes : Bytes) : Link × Nat :=
  let count := fitting link.toClient bytes
  ({ link with toClient := link.toClient ++ bytes.take count }, count)

/-- The client drops its end. What it has not read stays where it is. -/
def dropClient (link : Link) : Link :=
  { link with clientOpen := false }

def isFull (link : Link) : Bool :=
  capacity ≤ link.toClient.length

def dropRemote (link : Link) : Link :=
  { link with remoteOpen := false, toRemote := [] }

inductive Reading where
  /-- Nothing yet. -/
  | nothing
  | bytes (bytes : Bytes)
  | ended

def clientRead (link : Link) : Link × Reading :=
  if !link.toClient.isEmpty then ({ link with toClient := [] }, .bytes link.toClient)
  else (link, if link.remoteOpen then .nothing else .ended)

def remoteRead (link : Link) : Link × Reading :=
  if !link.toRemote.isEmpty then ({ link with toRemote := [] }, .bytes link.toRemote)
  else (link, if link.clientOpen then .nothing else .ended)

end Link
end RpcClient
