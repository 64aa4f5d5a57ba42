import RpcClient.Callback
import RpcClient.ChannelSettings

/-!
The settings of an invoker.
-/
namespace RpcClient

inductive ChannelChoice where
  | one (settings : ChannelSettings)
  | many (settings : List ChannelSettings)
  deriving Repr, Inhabited

structure InvokerSettings where
  beforeInvoke : List CallbackSettings := []
  afterInvoke : List CallbackSettings := []
  totalChannels : Nat := 0
  channel : Option ChannelChoice := none
  deriving Repr, Inhabited

namespace ChannelChoice

/-- The settings that replicas are built from. -/
def primary? : ChannelChoice → Option ChannelSettings
  | .one settings => some settings
  | .many settings => settings.head?

def decoder : Json.Decoder ChannelChoice := fun room draft => do
  match ← Json.Decoder.either (.list ChannelSettings.decoder) ChannelSettings.decoder room draft with
  | .inl settings => return .many settings
  | .inr settings => return .one settings

def toJson : ChannelChoice → Json
  | .one settings => settings.toJson
  | .many settings => .array (settings.map ChannelSettings.toJson)

end ChannelChoice

namespace InvokerSettings

open Json.Decoder in
def decoder : Json.Decoder InvokerSettings :=
  record
    [field "before_invoke" (list CallbackSettings.decoder) fun before r =>
        { r with beforeInvoke := before },
      field "after_invoke" (list CallbackSettings.decoder) fun after r =>
        { r with afterInvoke := after },
      field "total_channels" natural fun total r => { r with totalChannels := total },
      field "channel" (optional ChannelChoice.decoder) fun channel r => { r with channel }]
    {} some

def parse (text : Bytes) : Except Failure InvokerSettings :=
  (Json.Decoder.run decoder text).mapError .json

def toJson (settings : InvokerSettings) : Json :=
  .object
    [("after_invoke", .array (settings.afterInvoke.map CallbackSettings.toJson)),
      ("before_invoke", .array (settings.beforeInvoke.map CallbackSettings.toJson)),
      ("channel", settings.channel.elim .null ChannelChoice.toJson),
      ("total_channels", .ofNat settings.totalChannels)]

def primary? (settings : InvokerSettings) : Option ChannelSettings :=
  settings.channel.bind ChannelChoice.primary?

/-- How many replicas an invoker has. There is always one. -/
def replicaCount (settings : InvokerSettings) : Nat :=
  max settings.totalChannels 1

end InvokerSettings
end RpcClient
