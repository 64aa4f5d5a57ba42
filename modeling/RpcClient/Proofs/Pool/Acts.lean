import RpcClient.Pool.Step

/-! What the steps of a pool do. `Act` lists it, with what each needs, and what else is said of a step is read off
that. -/
namespace RpcClient.Pool

namespace Phase

def isHolding : Phase → Bool
  | .holding _ => true
  | _ => false

def isParted : Phase → Bool
  | .parted => true
  | _ => false

/-- Whether the caller has a place and no connection yet. -/
def isSeeking : Phase → Bool
  | .granted | .picking | .dialing => true
  | _ => false

def hasPlace (phase : Phase) : Bool :=
  phase.isHolding || phase.isParted || phase.isSeeking

/-- Whether the caller has no more to do with the pool. -/
def isOver : Phase → Bool
  | .returned | .failed _ | .dropped => true
  | _ => false

/-- The connection that the caller holds. -/
def conn? : Phase → Option Nat
  | .holding c => some c
  | _ => none

/-- Whether the caller connects. -/
def isDialing : Phase → Bool
  | .dialing => true
  | _ => false

variable {phase : Phase}

theorem hasPlace_eq_false_of_isOver (finished : phase.isOver = true) : phase.hasPlace = false := by
  cases phase <;> first | rfl | cases finished

theorem ne_queued_of_hasPlace (place : phase.hasPlace = true) : phase ≠ .queued := by
  rintro rfl
  cases place

theorem conn?_eq_none_of_isOver (finished : phase.isOver = true) : phase.conn? = none := by
  cases phase <;> first | rfl | cases finished

theorem isDialing_eq_false_of_isOver (finished : phase.isOver = true) : phase.isDialing = false := by
  cases phase <;> first | rfl | cases finished

end Phase

namespace Event

variable {κ : Type}

/-- The caller that an event is about. -/
def caller? : Event κ → Option Nat
  | .resume g | .pick g | .dialed g _ _ | .dialFailed g _ | .deadline g | .cancel g | .drop g
  | .put g _ | .giveBack g | .close g | .replace g _ => some g
  | _ => none

/-- How an event ends what its caller does: it gives its place back, or it fails or drops out before it holds
anything. -/
def outcome? : Event κ → Phase → Option Phase
  | .giveBack _, .parted => some .returned
  | .drop _, .queued | .drop _, .granted | .drop _, .dialing => some .dropped
  | .cancel _, .queued | .cancel _, .granted => some (.failed .poolTimeout)
  | .deadline _, .queued | .deadline _, .granted | .deadline _, .dialing => some (.failed .poolTimeout)
  | .dialFailed _ failure, .dialing => some (.failed failure)
  | _, _ => none

/-- Whether an event finds something to do where its caller is. -/
def acts : Event κ → Phase → Bool
  | .resume _, .granted | .pick _, .picking | .dialed _ _ _, .dialing => true
  | .put _ _, .holding _ | .drop _, .holding _ | .close _, .holding _ | .replace _ _, .holding _ => true
  | event, phase => (event.outcome? phase).isSome

variable {event : Event κ} {old new : Phase}

theorem isOver_of_outcome? (outcome : event.outcome? old = some new) : new.isOver = true := by
  simp only [outcome?] at outcome
  split at outcome <;> first | cases outcome; done | (obtain rfl := Option.some.inj outcome; rfl)

theorem ne_queued_of_outcome? (outcome : event.outcome? old = some new) : new ≠ .queued := by
  rintro rfl
  cases isOver_of_outcome? outcome

/-- What ends is not a stay with a connection. -/
theorem conn?_of_outcome? (outcome : event.outcome? old = some new) : old.conn? = none := by
  simp only [outcome?] at outcome
  split at outcome <;> first | cases outcome; done | rfl

/-- Who does not wait for a place has one until its stay ends. -/
theorem hasPlace_of_outcome? (outcome : event.outcome? old = some new) (busy : old ≠ .queued) :
    old.hasPlace = true := by
  simp only [outcome?] at outcome
  split at outcome <;> first | cases outcome; done | rfl | exact absurd rfl busy

theorem acts_of_outcome? (outcome : event.outcome? old = some new) : event.acts old = true := by
  simp only [outcome?] at outcome
  split at outcome <;> first | cases outcome; done | rfl

theorem outcome?_of_not_acts (idle : event.acts old = false) : event.outcome? old = none := by
  cases outcome : event.outcome? old with
  | none => rfl
  | some new => cases idle.symm.trans (acts_of_outcome? outcome)

/-- No event finds anything to do where a caller has come to its end. -/
theorem not_acts_of_isOver (finished : old.isOver = true) : event.acts old = false := by
  cases old <;> first | (cases finished; done) | (cases event <;> rfl)

end Event

variable {κ σ : Type} {p p' : Pool κ σ} {event : Event κ} {g m c : Nat} {old new : Phase}
  {conn : Connection κ σ} {handler : Handler σ} {failure : Failure}

/-! ### Readers -/

/-- What the reader of a connection does next. A connection that is not there has none. -/
def reader (p : Pool κ σ) (c : Nat) : Reader :=
  (p.conns[c]?.map Connection.reader).getD .absent

namespace Connection

/-- A connection as it is made. It is read from if it has a side to read from. -/
def made [Inhabited σ] (content : κ) (readable : Bool) : Connection κ σ :=
  { content, state := default, reader := if readable then .reading else .absent }

/-- The connection once its reader has met the end. -/
def halt (handler : Handler σ) (failure : Failure) (conn : Connection κ σ) : Connection κ σ :=
  { conn with reader := .stopping, state := handler.onClose failure conn.state }

/-- The connection once its reader has read some bytes. -/
def feed (handler : Handler σ) (bytes : Bytes) (conn : Connection κ σ) : Connection κ σ :=
  let (buffer, state, refusal) := handler.onData (conn.buffer ++ bytes) conn.state
  match refusal with
  | none => { conn with buffer, state }
  | some failure => halt handler failure { conn with buffer, state }

/-- The connection once its reader has closed it. -/
def stop (conn : Connection κ σ) : Connection κ σ :=
  { conn with reader := .stopped, closed := true }

theorem closed_feed (handler : Handler σ) (bytes : Bytes) (conn : Connection κ σ) :
    (conn.feed handler bytes).closed = conn.closed := by
  rcases taken : handler.onData (conn.buffer ++ bytes) conn.state with ⟨buffer, state, refusal⟩
  cases refusal <;> simp only [feed, taken, halt]

theorem content_feed (handler : Handler σ) (bytes : Bytes) (conn : Connection κ σ) :
    (conn.feed handler bytes).content = conn.content := by
  rcases taken : handler.onData (conn.buffer ++ bytes) conn.state with ⟨buffer, state, refusal⟩
  cases refusal <;> simp only [feed, taken, halt]

/-- What is read either leaves the reader as it is or brings it to its end. -/
theorem reader_feed (handler : Handler σ) (bytes : Bytes) (conn : Connection κ σ) :
    (conn.feed handler bytes).reader = conn.reader ∨ (conn.feed handler bytes).reader = .stopping := by
  rcases taken : handler.onData (conn.buffer ++ bytes) conn.state with ⟨buffer, state, refusal⟩
  cases refusal with
  | none =>
    left
    simp only [feed, taken]
  | some failure =>
    right
    simp only [feed, taken, halt]

end Connection

theorem reader_of_found (found : p.conns[c]? = some conn) : p.reader c = conn.reader := by
  rw [reader, found]
  rfl

theorem reader_of_absent (absent : p.conns[c]? = none) : p.reader c = .absent := by
  rw [reader, absent]
  rfl

theorem isClosed_of_found (found : p.conns[c]? = some conn) : p.isClosed c = conn.closed := by
  rw [isClosed, found]
  rfl

theorem exists_of_reader_ne_absent (present : p.reader c ≠ .absent) : ∃ conn, p.conns[c]? = some conn := by
  cases found : p.conns[c]? with
  | none => exact absurd (reader_of_absent found) present
  | some conn => exact ⟨conn, rfl⟩

/-! ### Changes of one connection -/

section

variable {f f' : Connection κ σ → Connection κ σ}

theorem getElem?_modifyConn (p : Pool κ σ) (c m : Nat) (f : Connection κ σ → Connection κ σ) :
    (p.modifyConn c f).conns[m]? = p.conns[m]?.map fun conn => if c = m then f conn else conn := by
  rw [modifyConn, List.getElem?_modify]
  rfl

/-- Only the connection that is there counts. -/
theorem modifyConn_congr (same : ∀ {conn}, p.conns[c]? = some conn → f conn = f' conn) :
    p.modifyConn c f = p.modifyConn c f' := by
  have conns : p.conns.modify c f = p.conns.modify c f' := by
    refine List.ext_getElem? fun m => ?_
    simp only [List.getElem?_modify]
    cases found : p.conns[m]? with
    | none => rfl
    | some conn =>
      simp only [Option.map_eq_map, Option.map_some]
      split
      · next here => rw [same (here ▸ found)]
      · rfl
  rw [modifyConn, modifyConn, conns]

theorem modifyConn_eq_self (same : ∀ {conn}, p.conns[c]? = some conn → f conn = conn) : p.modifyConn c f = p := by
  have unchanged : p.modifyConn c f = p.modifyConn c id := modifyConn_congr same
  rw [unchanged, modifyConn, List.modify_id]

theorem modifyConn_modifyConn (p : Pool κ σ) (c : Nat) (f f' : Connection κ σ → Connection κ σ) :
    (p.modifyConn c f).modifyConn c f' = p.modifyConn c (f' ∘ f) := by
  rw [modifyConn, modifyConn, List.modify_modify_eq]
  rfl

end

theorem stopReading_of_reading (held : p.handler = some handler) (reading : p.reader c = .reading)
    (failure : Failure) : p.stopReading c failure = p.modifyConn c (.halt handler failure) := by
  rw [stopReading, held]
  refine modifyConn_congr fun found => ?_
  rw [reader_of_found found] at reading
  simp only [reading, Connection.halt]

theorem stopReading_of_idle (idle : p.handler = none ∨ p.reader c ≠ .reading) (failure : Failure) :
    p.stopReading c failure = p := by
  rw [stopReading]
  split
  · rfl
  · next held =>
    have idle := idle.resolve_left (by simp [held])
    refine modifyConn_eq_self fun {conn} found => ?_
    rw [reader_of_found found] at idle
    split
    · next reading => exact absurd reading idle
    · rfl

theorem received_of_reading (held : p.handler = some handler) (reading : p.reader c = .reading)
    (bytes : Bytes) : p.received c bytes = p.modifyConn c (.feed handler bytes) := by
  have present : p.reader c ≠ .absent := by
    rw [reading]
    exact Reader.noConfusion
  obtain ⟨conn, found⟩ := exists_of_reader_ne_absent present
  have reading' := (reader_of_found found).symm.trans reading
  rcases taken : handler.onData (conn.buffer ++ bytes) conn.state with ⟨buffer, state, refusal⟩
  simp only [received, held, found, reading', taken]
  cases refusal with
  | none =>
    refine modifyConn_congr fun found' => ?_
    obtain rfl := Option.some.inj (found.symm.trans found')
    simp only [Connection.feed, taken]
  | some failure =>
    let fed (conn : Connection κ σ) : Connection κ σ := { conn with buffer, state }
    have still : (p.modifyConn c fed).reader c = .reading := by
      rw [reader, getElem?_modifyConn, found, Option.map_some, Option.map_some, if_pos rfl]
      exact reading'
    have held' : (p.modifyConn c fed).handler = some handler := held
    have stopped := stopReading_of_reading held' still failure
    rw [modifyConn_modifyConn] at stopped
    refine stopped.trans (modifyConn_congr fun found' => ?_)
    obtain rfl := Option.some.inj (found.symm.trans found')
    simp only [Connection.feed, taken, Function.comp_apply, fed]

theorem received_of_idle (idle : p.handler = none ∨ p.reader c ≠ .reading) (bytes : Bytes) :
    p.received c bytes = p := by
  simp only [received]
  split
  · next held found =>
    have idle := idle.resolve_left (by simp [held])
    split
    · next reading => exact absurd ((reader_of_found found).trans reading) idle
    · rfl
  · rfl

theorem readerStops_of_stopping (stopping : p.reader c = .stopping) :
    p.readerStops c = p.modifyConn c .stop := by
  refine modifyConn_congr fun found => ?_
  rw [reader_of_found found] at stopping
  simp only [stopping, Connection.stop]

theorem readerStops_of_ne (busy : p.reader c ≠ .stopping) : p.readerStops c = p := by
  refine modifyConn_eq_self fun {conn} found => ?_
  rw [reader_of_found found] at busy
  split
  · next stopping => exact absurd stopping busy
  · rfl

/-! ### Steps -/

/-- A reader that reads stops with a failure: the bytes end or cannot be read, or the connection is closed. -/
inductive Halts (closed : Bool) (c : Nat) : Event κ → Failure → Prop
  | ended : Halts closed c (.ended c) .connectionClosed
  | failed {flaw : TransportFlaw} : Halts closed c (.readFailed c flaw) (.io flaw)
  | noticed : closed = true → Halts closed c (.noticed c) .connectionClosed

/-- A caller parts with a connection that is not to be kept. -/
inductive Discards (p : Pool κ σ) (g c : Nat) : Event κ → Prop
  | drop : Discards p g c (.drop g)
  | put {discard : Bool} : discard = true ∨ p.isClosed c = true ∨ p.maxActive ≤ p.free.length →
      Discards p g c (.put g discard)

/-- What changes inside a connection where it is. -/
inductive Inside (p : Pool κ σ) : Event κ → Nat → (Connection κ σ → Connection κ σ) → Prop
  | close {g c : Nat} : p.gets[g]? = some (.holding c) →
      Inside p (.close g) c fun conn => { conn with closed := true }
  | replace {g c : Nat} {content : κ} : p.gets[g]? = some (.holding c) →
      Inside p (.replace g content) c fun conn => { conn with content }
  | feed {handler : Handler σ} {c : Nat} {bytes : Bytes} : p.handler = some handler → p.reader c = .reading →
      Inside p (.received c bytes) c (.feed handler bytes)
  | halt {handler : Handler σ} {event : Event κ} {c : Nat} {failure : Failure} : p.handler = some handler →
      p.reader c = .reading → Halts (p.isClosed c) c event failure → Inside p event c (.halt handler failure)
  | stop {c : Nat} : p.reader c = .stopping → Inside p (.readerStops c) c .stop

/-- Whether an event finds something to do. -/
def finds (p : Pool κ σ) : Event κ → Bool
  | .get => true
  | .received c _ | .ended c | .readFailed c _ => p.handler.isSome && p.reader c == .reading
  | .noticed c => (p.handler.isSome && p.reader c == .reading) && p.isClosed c
  | .readerStops c => p.reader c == .stopping
  | event => (event.caller?.bind (p.gets[·]?)).any event.acts

/-- What a step does. -/
inductive Act [Inhabited σ] (p : Pool κ σ) : Event κ → Pool κ σ → Prop
  | rest {event : Event κ} : p.finds event = false → Act p event p
  /-- A caller comes and gets a place. -/
  | enter : 0 < p.available →
      Act p .get { p with available := p.available - 1, gets := p.gets ++ [.granted] }
  /-- A caller comes while no place is left. -/
  | wait : p.available = 0 →
      Act p .get { p with queue := p.queue ++ [p.gets.length], gets := p.gets ++ [.queued] }
  | resume {g : Nat} : p.gets[g]? = some .granted → Act p (.resume g) (p.setPhase g .picking)
  /-- A caller that looks takes the first connection, which is open. -/
  | take {g c : Nat} {free : List Nat} : p.gets[g]? = some .picking → p.free = c :: free →
      p.isClosed c = false → Act p (.pick g) ({ p with free }.setPhase g (.holding c))
  /-- A caller that looks comes upon a closed connection. -/
  | shed {g c : Nat} {free : List Nat} : p.gets[g]? = some .picking → p.free = c :: free →
      p.isClosed c = true → Act p (.pick g) { p with free }
  | dial {g : Nat} : p.gets[g]? = some .picking → p.free = [] → Act p (.pick g) (p.setPhase g .dialing)
  | connect {g : Nat} {content : κ} {readable : Bool} : p.gets[g]? = some .dialing →
      Act p (.dialed g content readable)
        ({ p with conns := p.conns ++ [Connection.made content (readable && p.handler.isSome)] }.setPhase g
          (.holding p.conns.length))
  /-- A caller gives up waiting. -/
  | leave {event : Event κ} {g : Nat} {new : Phase} : event.caller? = some g →
      p.gets[g]? = some .queued → event.outcome? .queued = some new →
      Act p event ((p.leaveQueue g).setPhase g new)
  /-- A caller gives its place back. -/
  | giveBack {event : Event κ} {g : Nat} {old new : Phase} : event.caller? = some g →
      p.gets[g]? = some old → event.outcome? old = some new → old.hasPlace = true →
      Act p event (p.setPhase g new).release
  /-- A caller parts with an open connection, which is kept. -/
  | keep {g c : Nat} : p.gets[g]? = some (.holding c) → p.isClosed c = false →
      p.free.length < p.maxActive → Act p (.put g false) ({ p with free := c :: p.free }.setPhase g .parted)
  | discard {event : Event κ} {g c : Nat} : p.gets[g]? = some (.holding c) → Discards p g c event →
      Act p event ((p.closeConn c).setPhase g .parted)
  | inside {event : Event κ} {c : Nat} {f : Connection κ σ → Connection κ σ} : Inside p event c f →
      Act p event (p.modifyConn c f)

/-! A step does what `Act` says of its event, and nothing else. -/

theorem acts_of_finds (idle : p.finds event = false) (caller : event.caller? = some g)
    (here : p.gets[g]? = some old) : event.acts old = false := by
  cases event <;> cases caller <;> simpa only [finds, Event.caller?, Option.bind_some, here, Option.any_some] using idle

theorem exists_acts_of_finds (found : p.finds event = true) (caller : event.caller? = some g) :
    ∃ old, p.gets[g]? = some old ∧ event.acts old = true := by
  cases here : p.gets[g]? with
  | none =>
    cases event <;> cases caller <;>
      simp only [finds, Event.caller?, Option.bind_some, here, Option.any_none, Bool.false_eq_true] at found
  | some old =>
    refine ⟨old, rfl, ?_⟩
    cases event <;> cases caller <;>
      simpa only [finds, Event.caller?, Option.bind_some, here, Option.any_some] using found

theorem idle_of_not_reads (idle : (p.handler.isSome && p.reader c == .reading) = false) :
    p.handler = none ∨ p.reader c ≠ .reading := by
  rw [Bool.and_eq_false_iff, Option.isSome_eq_false_iff, Option.isNone_iff_eq_none] at idle
  refine idle.imp_right fun apart reading => ?_
  rw [reading] at apart
  cases apart

theorem step_of_not_finds [Inhabited σ] (idle : p.finds event = false) : p.step event = p := by
  have rests : ∀ {g old}, event.caller? = some g → p.gets[g]? = some old → event.acts old = false :=
    acts_of_finds idle
  cases event with
  | get => cases idle
  | received c bytes => exact received_of_idle (idle_of_not_reads idle) bytes
  | ended c => exact stopReading_of_idle (idle_of_not_reads idle) _
  | readFailed c flaw => exact stopReading_of_idle (idle_of_not_reads idle) _
  | noticed c =>
    rw [step, noticed]
    split
    · next closed =>
      simp only [finds, closed, Bool.and_true] at idle
      exact stopReading_of_idle (idle_of_not_reads idle) _
    · rfl
  | readerStops c => exact readerStops_of_ne fun stopping => by simp [finds, stopping] at idle
  | deadline g =>
    simp only [step, deadline, cancel]
    split
    · next here => cases rests rfl here
    · split <;> first | rfl | next here => cases rests rfl here
  | _ =>
    simp only [step, resume, pick, dialed, dialFailed, cancel, drop, put, giveBack, close, replace]
    split <;> first | rfl | next here => cases rests rfl here

theorem Inside.eq_step [Inhabited σ] {f : Connection κ σ → Connection κ σ} (inside : Inside p event c f) :
    p.modifyConn c f = p.step event := by
  cases inside with
  | close here => simp only [step, Pool.close, here, closeConn]
  | replace here => simp only [step, Pool.replace, here]
  | feed held reading => exact (received_of_reading held reading _).symm
  | halt held reading halts =>
    cases halts with
    | ended => exact (stopReading_of_reading held reading _).symm
    | failed => exact (stopReading_of_reading held reading _).symm
    | noticed closed =>
      rw [step, noticed, if_pos closed]
      exact (stopReading_of_reading held reading _).symm
  | stop stopping => exact (readerStops_of_stopping stopping).symm

theorem Act.eq_step [Inhabited σ] (act : Act p event p') : p' = p.step event := by
  cases act with
  | rest idle => exact (step_of_not_finds idle).symm
  | enter left => simp only [step, get, if_pos left]
  | wait none => simp only [step, get, none, Nat.lt_irrefl, if_false]
  | resume here => simp only [step, Pool.resume, here]
  | @take g c free here head live =>
    have live' : { p with free }.isClosed c = false := live
    simp only [step, pick, here, head, live', Bool.false_eq_true, if_false]
  | @shed g c free here head closed =>
    have closed' : { p with free }.isClosed c = true := closed
    simp only [step, pick, here, head, closed', if_true]
  | dial here none => simp only [step, pick, here, none]
  | connect here => simp only [step, dialed, here, Connection.made]
  | @leave _ g new caller here outcome =>
    cases event <;> cases caller <;> cases outcome <;>
      simp only [step, drop, deadline, cancel, here]
  | @giveBack _ g old new caller here outcome place =>
    cases event <;> cases caller <;> cases old <;> cases place <;> cases outcome <;>
      simp only [step, dialFailed, drop, deadline, cancel, Pool.giveBack, here]
  | keep here live room =>
    simp only [step, put, here, live, Nat.not_le.mpr room, Bool.or_self, decide_false, Bool.false_eq_true, if_false]
  | @discard _ g c here discards =>
    cases discards with
    | drop => simp only [step, drop, here]
    | @put discard reason =>
      have reason : (discard || p.isClosed c || decide (p.maxActive ≤ p.free.length)) = true := by
        simpa only [Bool.or_eq_true, decide_eq_true_iff, or_assoc] using reason
      simp only [step, put, here, reason, if_true]
  | inside inside => exact inside.eq_step

theorem exists_act_put [Inhabited σ] (here : p.gets[g]? = some (.holding c)) (discard : Bool) :
    ∃ p', Act p (.put g discard) p' := by
  by_cases reason : discard = true ∨ p.isClosed c = true ∨ p.maxActive ≤ p.free.length
  · exact ⟨_, .discard here (.put reason)⟩
  · rw [not_or, not_or, Bool.not_eq_true, Bool.not_eq_true, Nat.not_le] at reason
    obtain ⟨rfl, live, room⟩ := reason
    exact ⟨_, .keep here live room⟩

theorem exists_act_pick [Inhabited σ] (here : p.gets[g]? = some .picking) : ∃ p', Act p (.pick g) p' := by
  cases head : p.free with
  | nil => exact ⟨_, .dial here head⟩
  | cons c free =>
    cases closed : p.isClosed c with
    | true => exact ⟨_, .shed here head closed⟩
    | false => exact ⟨_, .take here head closed⟩

theorem exists_act_of_acts [Inhabited σ] (caller : event.caller? = some g) (here : p.gets[g]? = some old)
    (acts : event.acts old = true) : ∃ p', Act p event p' := by
  cases outcome : event.outcome? old with
  | some new =>
    by_cases waits : old = .queued
    · subst waits
      exact ⟨_, .leave caller here outcome⟩
    · exact ⟨_, .giveBack caller here outcome (Event.hasPlace_of_outcome? outcome waits)⟩
  | none =>
    cases event with
    | resume g => cases caller; cases old <;> cases acts; exact ⟨_, .resume here⟩
    | pick g => cases caller; cases old <;> cases acts; exact exists_act_pick here
    | dialed g content readable => cases caller; cases old <;> cases acts; exact ⟨_, .connect here⟩
    | drop g =>
      cases caller
      cases old <;> first | (cases acts; done) | (cases outcome; done) | exact ⟨_, .discard here .drop⟩
    | put g discard => cases caller; cases old <;> cases acts; exact exists_act_put here discard
    | close g => cases caller; cases old <;> cases acts; exact ⟨_, .inside (.close here)⟩
    | replace g content => cases caller; cases old <;> cases acts; exact ⟨_, .inside (.replace here)⟩
    | _ => first | (cases caller; done) | (cases old <;> first | (cases acts; done) | cases outcome)

theorem exists_act_halt [Inhabited σ] (found : (p.handler.isSome && p.reader c == .reading) = true)
    (halts : Halts (p.isClosed c) c event failure) : ∃ p', Act p event p' := by
  rw [Bool.and_eq_true, Option.isSome_iff_exists, beq_iff_eq] at found
  obtain ⟨⟨handler, held⟩, reading⟩ := found
  exact ⟨_, .inside (.halt held reading halts)⟩

theorem exists_act [Inhabited σ] (p : Pool κ σ) (event : Event κ) : ∃ p', Act p event p' := by
  cases found : p.finds event with
  | false => exact ⟨p, .rest found⟩
  | true =>
    cases event with
    | get =>
      by_cases left : 0 < p.available
      · exact ⟨_, .enter left⟩
      · exact ⟨_, .wait (Nat.eq_zero_of_not_pos left)⟩
    | received c bytes =>
      simp only [finds, Bool.and_eq_true, Option.isSome_iff_exists, beq_iff_eq] at found
      obtain ⟨⟨handler, held⟩, reading⟩ := found
      exact ⟨_, .inside (.feed held reading)⟩
    | ended c => exact exists_act_halt found .ended
    | readFailed c flaw => exact exists_act_halt found .failed
    | noticed c =>
      rw [finds, Bool.and_eq_true] at found
      exact exists_act_halt found.1 (.noticed found.2)
    | readerStops c => exact ⟨_, .inside (.stop (eq_of_beq found))⟩
    | _ =>
      obtain ⟨old, here, acts⟩ := exists_acts_of_finds found rfl
      exact exists_act_of_acts rfl here acts

theorem step_act [Inhabited σ] (p : Pool κ σ) (event : Event κ) : Act p event (p.step event) := by
  obtain ⟨p', act⟩ := p.exists_act event
  rwa [act.eq_step] at act

theorem run_append [Inhabited σ] (p : Pool κ σ) (events later : List (Event κ)) :
    p.run (events ++ later) = (p.run events).run later :=
  List.foldl_append

theorem run_concat [Inhabited σ] (p : Pool κ σ) (events : List (Event κ)) (event : Event κ) :
    p.run (events ++ [event]) = (p.run events).step event :=
  p.run_append events [event]

end RpcClient.Pool
