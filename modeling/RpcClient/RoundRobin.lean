/-!
Taking turns among a number of choices.
-/
namespace RpcClient

/-- The number of turns taken so far, modulo `2^64`. -/
structure RoundRobin where
  turns : UInt64 := 0
  deriving DecidableEq, Repr, Inhabited

/-- Chooses one of `count`. Where there is no real choice, no turn is taken. -/
def RoundRobin.select (r : RoundRobin) (count : Nat) : Option (Fin count) × RoundRobin :=
  match count with
  | 0 => (none, r)
  | 1 => (some 0, r)
  | count + 2 =>
    (some ⟨r.turns.toNat % (count + 2), Nat.mod_lt _ (Nat.succ_pos _)⟩, ⟨r.turns + 1⟩)

end RpcClient
