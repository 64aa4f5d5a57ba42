/-!
How much of what a connection of HTTP/1 has sent is looked at in one go. The amount follows what
comes: it doubles behind a look that was filled, and halves behind two in a row that were not half
full.
-/
namespace RpcClient.Http

structure Intake where
  size : Nat := 8192
  /-- Whether the last look was not half full. -/
  isSlack : Bool := false
  deriving DecidableEq, Repr, Inhabited

namespace Intake

def least : Nat := 8192

def most : Nat := 417792

/-- The size to look at behind a look that found `count` bytes. -/
def next (intake : Intake) (count : Nat) : Intake :=
  if intake.size ≤ count then { size := min (2 * intake.size) most }
  else if intake.size ≤ 2 * count then { size := intake.size }
  else if intake.isSlack then { size := max (intake.size / 2) least }
  else { intake with isSlack := true }

end Intake
end RpcClient.Http
