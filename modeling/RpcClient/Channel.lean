import RpcClient.ChannelSettings
import RpcClient.Http.Channel
import RpcClient.Http.Connection
import RpcClient.Http.Routed
import RpcClient.Multiplex.Step

/-!
Channels of every kind, and the registry that builds them from settings.
-/
namespace RpcClient

inductive Channel where
  /-- Calls share one connection to a listener. -/
  | multiplexed (listener : String) (channel : Multiplex.Channel)
  /-- Calls take connections to a listener from a pool. -/
  | pooled (listener : String) (channel : Http.Channel Http.Connection)
  /-- Every call finds its host. -/
  | routed (channel : Http.Routed.Channel)

namespace Channel

/-- What channels are built from besides their settings. -/
structure Context where
  codecs : Codec.Registry := .standard
  routing : RoutingTable := .empty

/-- Builds a channel whose calls share one connection. Its codec has the name of the protocol. -/
def multiplexedOf (context : Context) (settings : ChannelSettings) : Except Failure Channel :=
  match context.codecs.get? settings.protocol with
  | none => .error (.protocolNotFound settings.protocol)
  | some codec =>
    match codec.configure settings.ext with
    | .error error => .error (.wire error)
    | .ok codec => .ok (.multiplexed settings.listener (.new codec))

def pooledOf (settings : ChannelSettings) : Channel :=
  .pooled settings.listener (.new settings.poolSize)

def routedOf (context : Context) : Channel :=
  .routed (.new context.routing)

/-- Builds a channel of some kind from its settings. `σ` is what builders remember, also of channels
that they could not build. -/
abbrev Builder (σ κ : Type) :=
  Context → ChannelSettings → ExceptT Failure (StateM σ) κ

/-- Builders by the names of their kinds. -/
structure Registry (σ κ : Type) where
  /-- Sorted by name, each name once. -/
  builders : List (String × Builder σ κ) := []

namespace Registry

variable {σ κ : Type}

def empty : Registry σ κ := {}

def register (registry : Registry σ κ) (name : String) (builder : Builder σ κ) : Registry σ κ :=
  ⟨Entries.insertSorted name builder registry.builders⟩

/-- The registry of the channels of this library, each made a `κ` by `embed`. -/
def standard (embed : Channel → κ) : Registry σ κ :=
  let multiplexed : Builder σ κ := fun context settings => do
    match multiplexedOf context settings with
    | .ok channel => return embed channel
    | .error failure => throw failure
  empty.register "bolt" multiplexed |>.register "boltv2" multiplexed
    |>.register "dubbo" multiplexed
    |>.register "http" (fun _ settings => return embed (pooledOf settings))
    |>.register "routed" (fun context _ => return embed (routedOf context))

def build (registry : Registry σ κ) : Builder σ κ := fun context settings =>
  match Entries.get? settings.protocol registry.builders with
  | none => throw (.channelNotFound settings.protocol)
  | some builder => builder context settings

def contains (registry : Registry σ κ) (name : String) : Bool :=
  Entries.contains name registry.builders

def names (registry : Registry σ κ) : List String :=
  registry.builders.map Prod.fst

end Registry
end Channel
end RpcClient
