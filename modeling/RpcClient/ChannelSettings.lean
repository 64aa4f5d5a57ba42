import RpcClient.Failure
import RpcClient.Json.Decoder

/-!
The settings of a channel.
-/
namespace RpcClient

structure ChannelSettings where
  /-- The name of the kind of channel, which most often is a protocol. -/
  protocol : String
  listener : String := ""
  size : Nat := 0
  /-- The settings of the protocol, sorted by key. -/
  ext : List (String × Json) := []
  deriving Repr, Inhabited

namespace ChannelSettings

open Json.Decoder in
def decoder : Json.Decoder ChannelSettings :=
  record
    [field "protocol" string fun protocol r => (true, { r.2 with protocol }),
      field "listener" string fun listener r => (r.1, { r.2 with listener }),
      field "size" natural fun size r => (r.1, { r.2 with size }),
      field "ext" (members value) fun ext r => (r.1, { r.2 with ext := Entries.sortedLast ext })]
    (false, { protocol := "" })
    fun (hasProtocol, settings) => if hasProtocol then some settings else none

def parse (text : Bytes) : Except Failure ChannelSettings :=
  (Json.Decoder.run decoder text).mapError .json

def toJson (settings : ChannelSettings) : Json :=
  .object
    [("ext", .object settings.ext), ("listener", .string settings.listener),
      ("protocol", .string settings.protocol), ("size", .ofNat settings.size)]

def withSize (settings : ChannelSettings) (size : Nat) : ChannelSettings :=
  { settings with size }

def withExt (settings : ChannelSettings) (key : String) (value : Json) : ChannelSettings :=
  { settings with ext := Entries.insertSorted key value settings.ext }

/-- How many connections a pool has at most. There is always room for one. -/
def poolSize (settings : ChannelSettings) : Nat :=
  max settings.size 1

end ChannelSettings
end RpcClient
