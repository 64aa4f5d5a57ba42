import RpcClient.Bolt
import RpcClient.Dubbo

/-!
The codecs behind one interface, and the registry that finds them by name.
-/
namespace RpcClient

inductive Codec where
  /-- Every request names the class. -/
  | bolt (version : Bolt.Version) (className : String)
  | dubbo
  deriving DecidableEq, Repr, Inhabited

namespace Codec

def name : Codec → String
  | .bolt version _ => version.name
  | .dubbo => "dubbo"

/-- Takes the settings of a channel. -/
def configure (codec : Codec) (settings : List (String × Json)) : Except WireError Codec :=
  match codec with
  | .bolt version _ => (Bolt.classOf settings).map (.bolt version)
  | .dubbo => .ok .dubbo

def toFrame (codec : Codec) (request : Request) : Frame :=
  match codec with
  | .bolt _ className => Bolt.toFrame className request
  | .dubbo => Dubbo.toFrame request

def encode (codec : Codec) (frame : Frame) : Except WireError Bytes :=
  match codec with
  | .bolt version _ => Bolt.encode version frame
  | .dubbo => Dubbo.encode frame

def decode (codec : Codec) (buffer : Bytes) : Decoded :=
  match codec with
  | .bolt version _ => Bolt.decode version buffer
  | .dubbo => Dubbo.decode buffer

/-- The response in a frame. A status other than success is told in the response. -/
def ofFrame (codec : Codec) (frame : Frame) : Except WireError Response :=
  match codec with
  | .bolt _ _ => Bolt.ofFrame frame
  | .dubbo => Dubbo.ofFrame frame

/-- What a buffer holds: whole frames, then a rest without one, perhaps behind an error. -/
structure Drained where
  frames : List Frame
  error : Option WireError
  rest : Bytes
  deriving DecidableEq, Repr

/-- Takes at most `fuel` frames off a buffer, behind those in `frames`, which holds the newest
first. -/
def drainWithin (codec : Codec) : (fuel : Nat) → (frames : List Frame) → Bytes → Drained
  | 0, frames, buffer => ⟨frames.reverse, none, buffer⟩
  | fuel + 1, frames, buffer =>
    match codec.decode buffer with
    | .incomplete => ⟨frames.reverse, none, buffer⟩
    | .failed error rest => ⟨frames.reverse, some error, rest⟩
    | .frame frame rest => drainWithin codec fuel (frame :: frames) rest

/-- Takes frames off a buffer until there is no whole one or an error. Every frame takes bytes, so
there are no more frames than bytes. -/
def drain (codec : Codec) (buffer : Bytes) : Drained :=
  drainWithin codec (buffer.length + 1) [] buffer

/-- Codecs without settings, by name. -/
structure Registry where
  /-- Sorted by name, each name once. -/
  codecs : List (String × Codec)
  deriving Inhabited

namespace Registry

def empty : Registry := ⟨[]⟩

def register (registry : Registry) (name : String) (codec : Codec) : Registry :=
  ⟨Entries.insertSorted name codec registry.codecs⟩

def standard : Registry :=
  empty.register "bolt" (.bolt .v1 "") |>.register "boltv2" (.bolt .v2 "")
    |>.register "dubbo" .dubbo

def get? (registry : Registry) (name : String) : Option Codec :=
  Entries.get? name registry.codecs

def contains (registry : Registry) (name : String) : Bool :=
  Entries.contains name registry.codecs

def names (registry : Registry) : List String :=
  registry.codecs.map Prod.fst

end Registry
end Codec
end RpcClient
