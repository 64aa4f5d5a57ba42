import RpcClient.Text.Number

/-!
Listeners: the names under which remotes can be reached. A listener that is an address is dialled;
any other one is looked up in the surrounding process.
-/
namespace RpcClient.Listener

/-- The text in front of its last colon, and the text behind that. -/
def splitLastColon (text : String) : Option (String × String) :=
  let backwards := text.toList.reverse
  match backwards.dropWhile (· ≠ ':') with
  | [] => none
  | _ :: host =>
    some (String.ofList host.reverse, String.ofList (backwards.takeWhile (· ≠ ':')).reverse)

def isAddress (listener : String) : Bool :=
  match splitLastColon listener with
  | some (host, port) => host ≠ "" && (Number.read? 65536 port).isSome
  | none => false

end RpcClient.Listener
