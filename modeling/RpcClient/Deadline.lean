import RpcClient.Failure
import RpcClient.Message

/-!
Deadlines, on a clock that counts milliseconds.
-/
namespace RpcClient

/-- When a call has to be over, and when its caller cancels it. -/
structure Deadline where
  expiry : Nat
  cancelAt : Option Nat := none
  deriving DecidableEq, Repr, Inhabited

namespace Deadline

/-- The deadline of a request that starts at `now`. Its caller may cancel it after a while. -/
def start (request : Request) (now : Nat) (cancelAfter : Option Nat) : Deadline where
  expiry := now + request.timeoutMs.toNat
  cancelAt := cancelAfter.map (now + ·)

/-- When the call is given up if it is not over before. -/
def stop (d : Deadline) : Nat :=
  match d.cancelAt with
  | none => d.expiry
  | some time => min d.expiry time

def isPast (d : Deadline) (now : Nat) : Bool :=
  d.expiry ≤ now

def isCancelled (d : Deadline) (now : Nat) : Bool :=
  d.cancelAt.any (· ≤ now)

/-- The outcome of work that starts at `now` and takes `duration`, and the time it is known at. Work
that is not done before the call is given up comes to nothing. -/
def run {α : Type} (d : Deadline) (now duration : Nat) (outcome : Except Failure α) :
    Except Failure α × Nat :=
  if now + duration < d.stop then (outcome, now + duration)
  else (.error .timeout, max now d.stop)

end Deadline
end RpcClient
