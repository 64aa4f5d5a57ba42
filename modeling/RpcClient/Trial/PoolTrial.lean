import RpcClient.Deadline
import RpcClient.Pool.Step
import RpcClient.Trial.Simulation

/-!
Trying out a pool: its connections are numbers, dialled as planned, and their remote ends are held
by the trial.
-/
namespace RpcClient.Trial

structure DialPlan where
  delay : Nat := 0
  failure : Option String := none
  /-- Why reading from the connection fails at once. -/
  readError : Option String := none
  deriving DecidableEq, Repr, Inhabited

/-- What the handler of the trial remembers of a connection. -/
structure LineLog where
  lines : List Bytes := []
  /-- The kind of failure that ended the connection. -/
  closeReason : Option String := none
  deriving DecidableEq, Repr, Inhabited

namespace LineLog

/-- Takes whole lines off a buffer, in front of those in `lines`, which holds the newest first. A
line that starts with `bad` is refused. -/
def takeLines : (fuel : Nat) → (lines : List Bytes) → Bytes → Bytes × List Bytes × Option Failure
  | 0, lines, buffer => (buffer, lines.reverse, none)
  | fuel + 1, lines, buffer =>
    let line := buffer.takeWhile (· != 0x0a)
    match buffer.drop line.length with
    | [] => (buffer, lines.reverse, none)
    | _ :: rest =>
      if [0x62, 0x61, 0x64].isPrefixOf line then
        (rest, lines.reverse, some (.unavailable (.other "bad line")))
      else takeLines fuel (line :: lines) rest

/-- The handler that collects lines. -/
def handler : Pool.Handler LineLog where
  onData buffer log :=
    let (buffer, lines, refusal) := takeLines (buffer.length + 1) [] buffer
    (buffer, { log with lines := log.lines ++ lines }, refusal)
  onClose failure log := { log with closeReason := some failure.kind }

end LineLog

/-- The remote end of a connection. -/
structure RemoteEnd where
  /-- The number of the attempt that made the connection. -/
  number : Nat
  input : Bytes := []
  closed : Bool := false
  readError : Option String := none
  deriving DecidableEq, Repr, Inhabited

structure Dial where
  caller : Nat
  readyAt : Nat
  number : Nat
  plan : DialPlan
  deriving Repr

structure PoolTrial where
  now : Nat := 0
  pool : Pool Nat LineLog
  plans : List DialPlan := []
  readers : Bool := false
  dials : Nat := 0
  dialing : List Dial := []
  deadlines : List Deadline := []
  ends : List RemoteEnd := []
  /-- The callers that hold connections or wait for them, by the name of their slot. -/
  slots : List (String × Nat) := []
  /-- The connections that callers got, by number. -/
  got : List (Nat × Nat) := []

namespace PoolTrial

def take (t : PoolTrial) (event : Pool.Event Nat) : PoolTrial :=
  { t with pool := t.pool.step event }

def isWaiting : Pool.Phase → Bool
  | .queued | .granted | .picking | .dialing => true
  | _ => false

/-- Ends an attempt to connect whose time has come. -/
def endDial (t : PoolTrial) (d : Dial) : PoolTrial :=
  let t := { t with dialing := t.dialing.filter (·.caller != d.caller) }
  match d.plan.failure with
  | some text => t.take (.dialFailed d.caller (.connectionFailed (.other text)))
  | none =>
    let readable := t.readers || d.plan.readError.isSome
    let remote : RemoteEnd := { number := d.number, readError := d.plan.readError }
    { t with ends := t.ends ++ [remote] }.take (.dialed d.caller d.number readable)

/-- What a caller can do now. -/
def callerAct? (t : PoolTrial) (g : Nat) : Option PoolTrial :=
  match t.pool.gets[g]? with
  | some .granted => some (t.take (.resume g))
  | some .picking => some (t.take (.pick g))
  | some .dialing =>
    match t.dialing.find? (·.caller == g) with
    | none =>
      let plan := (t.plans[t.dials]?).getD {}
      let dial : Dial := ⟨g, t.now + plan.delay, t.dials + 1, plan⟩
      some { t with dials := t.dials + 1, dialing := t.dialing ++ [dial] }
    | some d =>
      if d.readyAt ≤ t.now then some (t.endDial d)
      else if (t.deadlines[g]?).any (·.isPast t.now) then
        some ({ t with dialing := t.dialing.filter (·.caller != g) }.take (.deadline g))
      else none
  | some .queued =>
    if (t.deadlines[g]?).any (·.isPast t.now) then some (t.take (.deadline g))
    else if (t.deadlines[g]?).any (·.isCancelled t.now) then some (t.take (.cancel g))
    else none
  | some .parted => some (t.take (.giveBack g))
  | _ => none

/-- What the reader of a connection can do now. -/
def readerAct? (t : PoolTrial) (c : Nat) : Option PoolTrial :=
  match t.pool.conns[c]?, t.ends[c]? with
  | some conn, some remote =>
    match conn.reader with
    | .stopping => some (t.take (.readerStops c))
    | .reading =>
      match remote.readError with
      | some text => some (t.take (.readFailed c (.other text)))
      | none =>
        if !remote.input.isEmpty then
          let t := { t with ends := t.ends.set c { remote with input := [] } }
          some (t.take (.received c remote.input))
        else if remote.closed then some (t.take (.ended c))
        else if conn.closed then some (t.take (.noticed c))
        else none
    | _ => none
  | _, _ => none

def simulation : Simulation PoolTrial where
  now := PoolTrial.now
  setNow t now := { t with now }
  act? t :=
    (List.range t.pool.gets.length).findSome? t.callerAct? <|>
      (List.range t.pool.conns.length).findSome? t.readerAct?
  timers t :=
    t.dialing.map Dial.readyAt ++
      ((t.pool.gets.zip t.deadlines).filter fun (phase, _) => isWaiting phase).flatMap
        fun (_, d) => d.expiry :: d.cancelAt.toList

inductive Step where
  | get (slot : String) (timeout : Nat) (cancelAfter : Option Nat)
  | spawnGet (slot : String) (timeout : Nat) (cancelAfter : Option Nat)
  | join (slot : String)
  | put (slot : String) (discard : Bool)
  | drop (slot : String)
  | close (slot : String)
  | replace (slot : String) (number : Nat)
  | look (slot : String)
  | remoteWrite (number : Nat) (bytes : Bytes)
  | remoteClose (number : Nat)
  | sleep (duration : Nat)
  deriving Repr

inductive Result where
  | conn (number : Nat)
  | failed (failure : Failure)
  | waiting
  | done
  | number (number : Nat)
  | state (number : Nat) (closed : Bool) (log : LineLog)
  | written (success : Bool)
  | nothing
  deriving Repr

def enter (t : PoolTrial) (timeout : Nat) (cancelAfter : Option Nat) : PoolTrial × Nat :=
  let deadline : Deadline := ⟨t.now + timeout, cancelAfter.map (t.now + ·)⟩
  ({ t with deadlines := t.deadlines ++ [deadline] }.take .get, t.pool.gets.length)

def held? (t : PoolTrial) (slot : String) : Option (Nat × Nat × Pool.Connection Nat LineLog) :=
  (t.slots.lookup slot).bind fun g =>
    match t.pool.gets[g]? with
    | some (.holding c) => (t.pool.conns[c]?).map fun conn => (g, c, conn)
    | _ => none

/-- Waits for what a caller gets, and puts it in a slot. What the slot held before is dropped. -/
def await (t : PoolTrial) (slot : String) (g : Nat) : PoolTrial × Result :=
  let t := simulation.waitUntil (fun t => !(t.pool.gets[g]?).any isWaiting) t
  match t.pool.gets[g]? with
  | some (.holding c) =>
    let number := ((t.pool.conns[c]?).map Pool.Connection.content).getD 0
    let t :=
      match t.slots.lookup slot with
      | some old => if old = g then t else t.take (.drop old)
      | none => t
    let others := t.slots.filter (·.1 != slot)
    ({ t with
        slots := (slot, g) :: others
        got := (number, c) :: t.got.filter (·.1 != number) }, .conn number)
  | some (.failed failure) => (t, .failed failure)
  | _ => (t, .nothing)

/-- The remote end of the connection that was dialled as `number`. Numbers of attempts that failed
belong to no connection. -/
def endOf? (t : PoolTrial) (number : Nat) : Option (Nat × RemoteEnd) :=
  (t.ends.findIdx? (·.number == number)).bind fun c => (t.ends[c]?).map fun remote => (c, remote)

/-- Whether somebody reads from a connection. -/
def isRead (t : PoolTrial) (c : Nat) : Bool :=
  match (t.pool.conns[c]?).map Pool.Connection.reader with
  | some .reading => true
  | _ => false

def perform (t : PoolTrial) : Step → PoolTrial × Result
  | .get slot timeout cancelAfter =>
    let (t, g) := t.enter timeout cancelAfter
    t.await slot g
  | .spawnGet slot timeout cancelAfter =>
    let (t, g) := t.enter timeout cancelAfter
    ({ t with slots := (slot, g) :: t.slots.filter (·.1 != slot) }, .waiting)
  | .join slot =>
    match t.slots.lookup slot with
    | some g => t.await slot g
    | none => (t, .nothing)
  | .put slot discard =>
    match t.held? slot with
    | some (g, _, _) => (t.take (.put g discard), .done)
    | none => (t, .nothing)
  | .drop slot =>
    match t.held? slot with
    | some (g, _, _) => (t.take (.drop g), .done)
    | none => (t, .nothing)
  | .close slot =>
    match t.held? slot with
    | some (g, _, _) => (t.take (.close g), .done)
    | none => (t, .nothing)
  | .replace slot number =>
    match t.held? slot with
    | some (g, _, _) => (t.take (.replace g number), .number number)
    | none => (t, .nothing)
  | .look slot =>
    match t.held? slot with
    | some (_, _, conn) => (t, .state conn.content conn.closed conn.state)
    | none => (t, .nothing)
  | .remoteWrite number bytes =>
    match t.endOf? number with
    | some (c, remote) =>
      if t.isRead c && !remote.closed then
        let remote := { remote with input := remote.input ++ bytes }
        ({ t with ends := t.ends.set c remote }, .written true)
      else (t, .written false)
    | none => (t, .written false)
  | .remoteClose number =>
    match t.endOf? number with
    | some (c, remote) => ({ t with ends := t.ends.set c { remote with closed := true } }, .done)
    | none => (t, .done)
  | .sleep duration => (simulation.pass duration t, .done)

/-- Does a step and lets a millisecond pass. -/
def step (t : PoolTrial) (s : Step) : PoolTrial × Result :=
  let (t, result) := t.perform s
  (simulation.pass 1 (simulation.settle t), result)

/-- The numbers of the connections that callers got and that are closed, in order. -/
def closedNumbers (t : PoolTrial) : List Nat :=
  ((t.got.filter fun (_, c) => t.pool.isClosed c).map Prod.fst).mergeSort

end PoolTrial
end RpcClient.Trial
