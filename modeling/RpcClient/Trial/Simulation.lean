/-!
Simulated time. Whatever can happen happens at once; when nothing can, time jumps to the next moment
at which something can.
-/
namespace RpcClient.Trial

/-- A world with a clock that counts milliseconds. -/
structure Simulation (ω : Type) where
  now : ω → Nat
  setNow : ω → Nat → ω
  /-- The next thing that can happen without time passing. -/
  act? : ω → Option ω
  /-- The moments, past ones among them, at which something may become possible. -/
  timers : ω → List Nat

namespace Simulation

variable {ω : Type}

/-- The most things that happen without time passing, and the most times that time jumps. It is far
beyond what a trial needs. -/
def limit : Nat := 100000000

/-- Lets everything happen that can, up to a number of things. -/
def settleWithin (sim : Simulation ω) : (fuel : Nat) → ω → ω
  | 0, w => w
  | fuel + 1, w =>
    match sim.act? w with
    | none => w
    | some w => settleWithin sim fuel w

def settle (sim : Simulation ω) (w : ω) : ω :=
  sim.settleWithin limit w

/-- The next moment after now at which something may become possible. -/
def next? (sim : Simulation ω) (w : ω) : Option Nat :=
  ((sim.timers w).filter (sim.now w < ·)).min?

/-- Lets time pass until `done` holds, but not beyond `horizon`, within a number of jumps. -/
def waitWithin (sim : Simulation ω) (horizon : Option Nat) (done : ω → Bool) : (fuel : Nat) → ω → ω
  | 0, w => w
  | fuel + 1, w =>
    let w := sim.settle w
    if done w then w
    else
      match sim.next? w, horizon with
      | none, none => w
      | none, some horizon => sim.settle (sim.setNow w (max (sim.now w) horizon))
      | some time, none => waitWithin sim none done fuel (sim.setNow w time)
      | some time, some horizon =>
        if time ≤ horizon then waitWithin sim (some horizon) done fuel (sim.setNow w time)
        else sim.settle (sim.setNow w (max (sim.now w) horizon))

/-- Lets time pass until `done` holds. -/
def waitUntil (sim : Simulation ω) (done : ω → Bool) (w : ω) : ω :=
  sim.waitWithin none done limit w

def pass (sim : Simulation ω) (duration : Nat) (w : ω) : ω :=
  sim.waitWithin (some (sim.now w + duration)) (fun _ => false) limit w

end Simulation
end RpcClient.Trial
