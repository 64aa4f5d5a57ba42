import RpcClient.Double.Basic
import RpcClient.Entries

/-!
JSON values.
-/
namespace RpcClient

inductive Json.Number where
  /-- A whole number from `-2^63` to `2^64 - 1`. -/
  | int (value : Int)
  | float (value : Double)
  deriving DecidableEq, Repr, Inhabited

/-- A JSON value. The members of an object are sorted by key and each key occurs once. -/
inductive Json where
  | null
  | bool (value : Bool)
  | number (value : Json.Number)
  | string (value : String)
  | array (items : List Json)
  | object (members : List (String × Json))
  deriving Repr, Inhabited

namespace Json

def ofNat (n : Nat) : Json := .number (.int n)

/-- An object with these members, of which the last under a key counts. -/
def ofMembers (members : List (String × Json)) : Json :=
  .object (Entries.sortedLast members)

end Json
end RpcClient
