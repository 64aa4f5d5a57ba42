import RpcClient.Channel
import RpcClient.InvokerSettings
import RpcClient.RoundRobin
import RpcClient.Timeout

/-!
Invokers: calls pass through callbacks to one of several replicas of a channel, and their responses
pass through callbacks on the way back.
-/
namespace RpcClient

/-- A note about a call that has succeeded. -/
structure Stat where
  rpcId : String
  traceId : String
  deriving DecidableEq, Repr, Inhabited

namespace Stat

def rpcIdKey : String := "rpc_trace_context.sofaRpcId"

def traceIdKey : String := "rpc_trace_context.sofaTraceId"

def ofRequest (request : Request) : Stat where
  rpcId := request.header.get rpcIdKey
  traceId := request.header.get traceIdKey

end Stat

structure Invoker (κ : Type) where
  chain : Callback.Chain := {}
  replicas : List κ := []
  balancer : RoundRobin := {}

namespace Invoker

variable {σ κ : Type}

structure Dispatch where
  replica : Nat
  request : Request

structure Outcome where
  result : Except Failure Response
  /-- The note that is taken, if one is. -/
  stat : Option Stat := none

def buildReplicas (build : ChannelSettings → ExceptT Failure (StateM σ) κ)
    (settings : ChannelSettings) : (count : Nat) → ExceptT Failure (StateM σ) (List κ)
  | 0 => return []
  | count + 1 => do
    let replica ← build settings
    return replica :: (← buildReplicas build settings count)

def ofSettings (channels : Channel.Registry σ κ) (callbacks : Callback.Registry)
    (context : Channel.Context) (settings : InvokerSettings) :
    ExceptT Failure (StateM σ) (Invoker κ) := do
  match settings.primary? with
  | none => throw .missingChannel
  | some channel =>
    let replicas ← buildReplicas (channels.build context) channel settings.replicaCount
    return {
      chain := .ofSettings callbacks settings.beforeInvoke settings.afterInvoke
      replicas }

/-- Prepares a call: gives it a timeout, passes its request through the callbacks, and chooses a
replica. A request that is refused chooses none. -/
def dispatch (invoker : Invoker κ) (request : Request) :
    Invoker κ × Except Interruption Dispatch :=
  match invoker.chain.beforeInvoke request.resolveTimeout with
  | .error interruption => (invoker, .error interruption)
  | .ok request =>
    match invoker.balancer.select invoker.replicas.length with
    | (none, balancer) => ({ invoker with balancer }, .error (.failed .missingChannel))
    | (some replica, balancer) => ({ invoker with balancer }, .ok ⟨replica, request⟩)

/-- Passes a response through the callbacks. If one of them fails, the response counts as it came; a
panic ends the call. -/
def complete (invoker : Invoker κ) (response : Response) : Except Interruption Response :=
  match invoker.chain.afterInvoke response with
  | .ok response => .ok response
  | .error (.failed _) => .ok response
  | .error (.panicked text) => .error (.panicked text)

/-- What becomes of a call, given what the channel did with its request. -/
def conclude (invoker : Invoker κ) (request : Request) (result : Except Interruption Response) :
    Outcome :=
  match result with
  | .error interruption => { result := .error interruption.failure }
  | .ok response =>
    match invoker.complete response with
    | .error interruption => { result := .error interruption.failure }
    | .ok response => { result := .ok response, stat := some (.ofRequest request) }

/-- Makes a call over channels of which `call` does what they do with a request. -/
def invoke {μ : Type → Type} [Monad μ] (invoker : Invoker κ)
    (call : Nat → Request → μ (Except Interruption Response)) (request : Request) :
    μ (Invoker κ × Outcome) := do
  match invoker.dispatch request with
  | (invoker, .error interruption) =>
    return (invoker, { result := .error interruption.failure })
  | (invoker, .ok ⟨replica, request⟩) =>
    let result ← call replica request
    return (invoker, invoker.conclude request result)

end Invoker
end RpcClient
