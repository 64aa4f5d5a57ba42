import RpcClient.Header
import RpcClient.Json.Decoder

/-!
Headers as JSON: an object of lists of strings.
-/
namespace RpcClient.Header

/-- Sets the values of keys in turn. -/
def ofValues (entries : List (String × List String)) : Header :=
  entries.foldl (fun h (key, values) => h.setAll key values) empty

open Json.Decoder in
def decoder : Json.Decoder Header := fun room draft =>
  ofValues <$> members (list string) room draft

def toJson (h : Header) : Json :=
  .ofMembers (h.entries.map fun (key, values) => (key, .array (values.map .string)))

end RpcClient.Header
