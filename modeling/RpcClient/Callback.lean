import RpcClient.Failure
import RpcClient.Json.Decoder
import RpcClient.Message

/-!
Callbacks: what an invoker does to requests before it sends them and to responses before it returns
them.
-/
namespace RpcClient

inductive Interruption where
  | failed (failure : Failure)
  /-- A panic, with its text if it has one. -/
  | panicked (text : Option String)
  deriving DecidableEq, Repr, Inhabited

def Interruption.failure : Interruption → Failure
  | .failed failure => failure
  | .panicked text => .panicked (text.getD "unknown panic")

abbrev BeforeCallback := Request → Except Interruption Request

abbrev AfterCallback := Response → Except Interruption Response

structure CallbackSettings where
  name : String
  config : Json := .null
  deriving Repr, Inhabited

open Json.Decoder in
def CallbackSettings.decoder : Json.Decoder CallbackSettings :=
  record
    [field "name" string fun name r => (some name, r.2),
      field "config" value fun config r => (r.1, config)]
    ((none, .null) : Option String × Json)
    fun (name, config) => name.map fun name => { name, config }

def CallbackSettings.toJson (settings : CallbackSettings) : Json :=
  .object [("config", settings.config), ("name", .string settings.name)]

namespace Callback

/-- The members of an object of strings, in the order of their keys. -/
def stringPairs (callback : String) (config : Json) :
    Except CallbackFlaw (List (String × String)) :=
  match config with
  | .object members =>
    members.mapM fun (key, value) =>
      match value with
      | .string text => .ok (key, text)
      | _ => .error (.notString callback key)
  | _ => .error (.notObject callback)

/-- Moves the values under `source` behind those under `target`. -/
def renameKey (header : Header) (source target : String) : Header :=
  match header.getAll? source with
  | none => header
  | some values =>
    values.foldl (fun header value => header.append target value) (header.erase source)

/-- Renames keys of a header, one pair of old and new key after the other. -/
def renameKeys (pairs : List (String × String)) (header : Header) : Header :=
  pairs.foldl (fun header (source, target) => renameKey header source target) header

/-- The callback that renames keys of the request header. -/
def headerRename (config : Json) : Except CallbackFlaw BeforeCallback :=
  (stringPairs "header_rename" config).map fun pairs request =>
    .ok { request with header := renameKeys pairs request.header }

/-- The callback that sets keys of the response header. -/
def headerInject (config : Json) : Except CallbackFlaw AfterCallback :=
  (stringPairs "header_inject" config).map fun pairs response =>
    .ok { response with
      header := pairs.foldl (fun header (key, value) => header.set key value) response.header }

/-- Makers of callbacks, by name. A maker refuses settings that it cannot use. -/
structure Registry where
  before : List (String × (Json → Except CallbackFlaw BeforeCallback)) := []
  after : List (String × (Json → Except CallbackFlaw AfterCallback)) := []

namespace Registry

def empty : Registry := {}

def registerBefore (registry : Registry) (name : String)
    (make : Json → Except CallbackFlaw BeforeCallback) : Registry :=
  { registry with before := Entries.put name make registry.before }

def registerAfter (registry : Registry) (name : String)
    (make : Json → Except CallbackFlaw AfterCallback) : Registry :=
  { registry with after := Entries.put name make registry.after }

/-- The registry of the callbacks of this library. -/
def standard : Registry :=
  empty.registerBefore "header_rename" headerRename |>.registerAfter "header_inject" headerInject

end Registry

/-- The callbacks of an invoker with their names, in order. -/
structure Chain where
  before : List (String × BeforeCallback) := []
  after : List (String × AfterCallback) := []

namespace Chain

/-- The callbacks that settings name. Those that are not registered or refuse their settings are
left out. -/
def make {α : Type} (makers : List (String × (Json → Except CallbackFlaw α)))
    (settings : List CallbackSettings) : List (String × α) :=
  settings.filterMap fun callback =>
    match Entries.get? callback.name makers with
    | none => none
    | some make =>
      match make callback.config with
      | .error _ => none
      | .ok run => some (callback.name, run)

def ofSettings (registry : Registry) (before after : List CallbackSettings) : Chain where
  before := make registry.before before
  after := make registry.after after

def beforeInvoke (chain : Chain) (request : Request) : Except Interruption Request :=
  chain.before.foldlM (fun request (_, run) => run request) request

/-- Passes a response through the callbacks, up to the first that refuses it. -/
def afterInvoke (chain : Chain) (response : Response) : Except Interruption Response :=
  chain.after.foldlM (fun response (_, run) => run response) response

end Chain
end Callback
end RpcClient
