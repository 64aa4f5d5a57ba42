import RpcClient.Multiplex.Step

/-! What a step does to the calls of a channel and to their waiters. The turns say everything that a
step can do to them, so that what they keep is kept by every step. -/
namespace RpcClient.Multiplex

theorem getElem?_concat {α : Type} (l : List α) (a : α) (n : Nat) :
    (l ++ [a])[n]? = if n = l.length then some a else l[n]? := by
  rw [List.getElem?_append]
  split
  · next old => rw [if_neg (Nat.ne_of_lt old)]
  · next beyond =>
    split
    · next last => simp [last]
    · next later =>
      rw [List.getElem?_eq_none (by simp; omega), List.getElem?_eq_none (by omega)]

theorem getElem?_modify_of_eq_some {α : Type} {l : List α} {a : α} {n : Nat} (found : l[n]? = some a)
    (f : α → α) (m : Nat) : (l.modify n f)[m]? = if n = m then some (f a) else l[m]? := by
  split
  · next here => rw [← here, List.getElem?_modify_eq, found]; rfl
  · next other => rw [List.getElem?_modify_ne f _ other]

theorem exists_of_getElem?_modify {α : Type} {l : List α} {f : α → α} {n m : Nat} {b : α}
    (found : (l.modify n f)[m]? = some b) : ∃ a, l[m]? = some a ∧ b = if n = m then f a else a := by
  rw [List.getElem?_modify] at found
  obtain ⟨a, before, rfl⟩ := Option.map_eq_some_iff.mp found
  exact ⟨a, before, rfl⟩

/-- Whether the call uses a connection of its own. -/
def Phase.isDirect : Phase → Bool
  | .direct _ _ => true
  | _ => false

/-- What callers see of a channel. -/
structure Ledger where
  codec : Codec
  lastId : UInt32
  calls : List Call
  pending : List (UInt64 × Nat)

/-- The calls once the waiter under a number has lost its place. -/
def Ledger.displaced (l : Ledger) (id : UInt64) : List Call :=
  match l.pending.lookup id with
  | none => l.calls
  | some old => l.calls.modify old fun call => { call with mailbox := .abandoned }

/-- A turn of the calls, with the request of a call that starts and the response that is handed to a
call. -/
inductive Turn (l : Ledger) : Option Request → Option (Nat × Frame) → Ledger → Prop where
  | rest : Turn l none none l
  /-- A call starts whose frame cannot be written. -/
  | refuse {request : Request} {id : UInt32} {error : WireError} :
      id = Channel.nextId l.lastId →
      l.codec.encode { l.codec.toFrame request with requestId := id.toUInt64 } = .error error →
      Turn l (some request) none
        { l with
          lastId := id
          calls := l.calls ++ [{ requestId := id.toUInt64, phase := .done (.error (.wire error)) }] }
  /-- A call starts that uses a connection of its own. -/
  | bypass {request : Request} {id : UInt32} {wire : Bytes} :
      id = Channel.nextId l.lastId →
      l.codec.encode { l.codec.toFrame request with requestId := id.toUInt64 } = .ok wire →
      request.target ≠ "" →
      Turn l (some request) none
        { l with
          lastId := id
          calls := l.calls ++
            [{ requestId := id.toUInt64, wire, phase := .direct request.target .dialing }] }
  /-- A call starts and is registered as a waiter. -/
  | register {request : Request} {id : UInt32} {wire : Bytes} :
      id = Channel.nextId l.lastId →
      l.codec.encode { l.codec.toFrame request with requestId := id.toUInt64 } = .ok wire →
      request.target = "" →
      Turn l (some request) none
        { l with
          lastId := id
          calls := l.displaced id.toUInt64 ++ [{ requestId := id.toUInt64, wire, phase := .seeking }]
          pending := (id.toUInt64, l.calls.length) :: l.pending.filter (·.1 != id.toUInt64) }
  /-- A call goes on. It keeps its number, its frame and what it was handed. -/
  | advance {n : Nat} {call : Call} (f : Call → Call) :
      l.calls[n]? = some call → call.phase.isEnded = false → (f call).phase.isEnded = false →
      (f call).phase.isDirect = call.phase.isDirect → (f call).requestId = call.requestId →
      (f call).wire = call.wire → (f call).mailbox = call.mailbox →
      Turn l none none { l with calls := l.calls.modify n f }
  /-- A call ends. With success it does so by what it was handed, unless it is direct. -/
  | finish {n : Nat} {call : Call} (phase : Phase) :
      l.calls[n]? = some call → call.phase.isEnded = false → phase.isEnded = true →
      (∀ response, phase = .done (.ok response) → call.phase.isDirect = false →
        ∃ frame, call.mailbox = .full frame ∧ l.codec.ofFrame frame = .ok response) →
      Turn l none none
        { l with
          calls := l.calls.modify n fun call => { call with phase }
          pending :=
            if call.phase.isDirect then l.pending
            else l.pending.filter (·.1 != call.requestId) }
  /-- A response is handed to its waiter. -/
  | hand {n : Nat} {frame : Frame} :
      frame.isResponse = true → l.pending.lookup frame.requestId = some n →
      Turn l none (some (n, frame))
        { l with
          calls := l.calls.modify n fun call => { call with mailbox := .full frame }
          pending := l.pending.filter (·.1 != frame.requestId) }

/-- The request of a call that starts. -/
def Event.request? : Event → Option Request
  | .start request => some request
  | _ => none

namespace Channel

/-- What callers see of the channel. -/
def ledger (ch : Channel) : Ledger := ⟨ch.codec, ch.lastId, ch.calls, ch.pending⟩

/-- The response that a reader takes off its buffer in a step. -/
def response? (ch : Channel) : Event → Option Frame
  | .decode c =>
    match ch.decoded? c with
    | some (.frame frame _) => if frame.isResponse then some frame else none
    | _ => none
  | _ => none

/-- The call that is handed a response in a step, with the response. -/
def handed? (ch : Channel) (event : Event) : Option (Nat × Frame) :=
  (ch.response? event).bind fun frame => (ch.waiter? frame.requestId).map (·, frame)

variable {ch : Channel} {n c : Nat}

theorem phase?_eq_some {phase : Phase} :
    ch.phase? n = some phase ↔ ∃ call, ch.calls[n]? = some call ∧ call.phase = phase := by
  simp only [phase?, Option.map_eq_some_iff]

theorem ledger_register (ch : Channel) (n : Nat) (id : UInt64) :
    (ch.register id n).ledger =
      { ch.ledger with
        calls := ch.ledger.displaced id
        pending := (id, n) :: ch.ledger.pending.filter (·.1 != id) } := by
  simp only [register, Ledger.displaced, show ch.ledger.pending.lookup id = ch.waiter? id from rfl]
  cases ch.waiter? id <;> rfl

theorem ledger_finish {call : Call} {phase : Phase} (found : ch.calls[n]? = some call) :
    (ch.finish n phase).ledger =
      { ch.ledger with
        calls := ch.ledger.calls.modify n fun call => { call with phase }
        pending :=
          if call.phase.isDirect then ch.ledger.pending
          else ch.ledger.pending.filter (·.1 != call.requestId) } := by
  cases kind : call.phase <;> simp only [finish, found, kind, Phase.isDirect] <;> rfl

/-! ### Turns that the operations of a channel take -/

variable (ch)

theorem turn_setPhase {old phase : Phase} (here : ch.phase? n = some old)
    (live : old.isEnded = false) (next : phase.isEnded = false)
    (same : phase.isDirect = old.isDirect) :
    Turn ch.ledger none none (ch.setPhase n phase).ledger := by
  obtain ⟨call, found, rfl⟩ := phase?_eq_some.mp here
  exact .advance (fun call => { call with phase }) found live next same rfl rfl rfl

theorem turn_finish {call : Call} {phase : Phase} (found : ch.calls[n]? = some call)
    (live : call.phase.isEnded = false) (ends : phase.isEnded = true)
    (earned : ∀ response, phase = .done (.ok response) → call.phase.isDirect = false →
      ∃ frame, call.mailbox = .full frame ∧ ch.codec.ofFrame frame = .ok response) :
    Turn ch.ledger none none (ch.finish n phase).ledger := by
  rw [ledger_finish found]
  exact .finish phase found live ends earned

theorem turn_fail {old : Phase} {failure : Failure} (here : ch.phase? n = some old)
    (live : old.isEnded = false) : Turn ch.ledger none none (ch.fail n failure).ledger := by
  obtain ⟨call, found, rfl⟩ := phase?_eq_some.mp here
  refine turn_finish ch found live rfl ?_
  intro response same
  cases same

theorem turn_dropped {old : Phase} (here : ch.phase? n = some old) (live : old.isEnded = false) :
    Turn ch.ledger none none (ch.finish n .dropped).ledger := by
  obtain ⟨call, found, rfl⟩ := phase?_eq_some.mp here
  refine turn_finish ch found live rfl ?_
  intro response same
  cases same

theorem turn_answer {call : Call} {frame : Frame} (found : ch.calls[n]? = some call)
    (live : call.phase.isEnded = false)
    (handed : call.phase.isDirect = false → call.mailbox = .full frame) :
    Turn ch.ledger none none (ch.answer n frame).ledger := by
  refine turn_finish ch found live rfl ?_
  intro response same shared
  refine ⟨frame, handed shared, ?_⟩
  have same : (ch.codec.ofFrame frame).mapError Failure.wire = .ok response :=
    Phase.done.inj same
  cases outcome : ch.codec.ofFrame frame with
  | error error =>
    rw [outcome] at same
    cases same
  | ok answer =>
    rw [outcome] at same
    cases same
    rfl

theorem turn_settle {otherwise : Channel} (here : ch.phase? n = some (.waiting c))
    (turn : Turn ch.ledger none none otherwise.ledger) :
    Turn ch.ledger none none (ch.settle n c otherwise).ledger := by
  obtain ⟨call, found, waiting⟩ := phase?_eq_some.mp here
  have live : call.phase.isEnded = false := by rw [waiting]; rfl
  cases given : call.mailbox with
  | empty => simpa only [settle, found, outcome?, given] using turn
  | full frame =>
    simpa only [settle, found, outcome?, given] using turn_answer ch found live fun _ => given
  | abandoned => simpa only [settle, found, outcome?, given] using turn_fail ch here rfl

theorem turn_startWriting {old : Phase} (here : ch.phase? n = some old)
    (live : old.isEnded = false) (shared : old.isDirect = false) :
    Turn ch.ledger none none (ch.startWriting n c).ledger := by
  obtain ⟨call, found, _⟩ := phase?_eq_some.mp here
  cases conn : ch.conns[c]? with
  | none => simpa only [startWriting, found, conn] using Turn.rest
  | some conn' =>
    simp only [startWriting, found, conn]
    split
    · exact turn_setPhase ch here live rfl shared.symm
    · exact turn_setPhase (ch.release c) here live rfl shared.symm

theorem turn_retry {old : Phase} {failure : Failure} (here : ch.phase? n = some old)
    (live : old.isEnded = false) (shared : old.isDirect = false) :
    Turn ch.ledger none none (ch.retry n failure).ledger := by
  obtain ⟨call, found, rfl⟩ := phase?_eq_some.mp here
  simp only [retry, found]
  split
  · exact turn_fail ch here live
  · exact .advance _ found live rfl shared.symm rfl rfl rfl

theorem turn_expire (n : Nat) : Turn ch.ledger none none (ch.expire n).ledger := by
  simp only [expire]
  split
  · next here => exact turn_fail ch here rfl
  · next here => exact turn_fail ch here rfl
  · next here => exact turn_fail { ch with dialer := none } here rfl
  · next c here => exact turn_settle ch here (turn_fail ch here rfl)
  · exact .rest

theorem turn_deliver {frame : Frame} (response : frame.isResponse = true) :
    Turn ch.ledger none ((ch.waiter? frame.requestId).map (·, frame))
      (ch.deliver frame).ledger := by
  cases waiter : ch.waiter? frame.requestId with
  | none => simpa only [deliver, waiter, Option.map_none] using Turn.rest
  | some n =>
    simp only [deliver, waiter, Option.map_some]
    exact .hand response waiter

theorem turn_start (request : Request) :
    Turn ch.ledger (some request) none (ch.start request).ledger := by
  simp only [start]
  split
  · next error refused => exact .refuse rfl refused
  · next wire encoded =>
    split
    · next direct => exact .bypass rfl encoded direct
    · next shared =>
      have registered := ledger_register { ch with lastId := nextId ch.lastId } ch.calls.length
        (nextId ch.lastId).toUInt64
      generalize Channel.register _ _ _ = target at registered ⊢
      have started : ({ target with calls := target.calls ++
          [{ requestId := (nextId ch.lastId).toUInt64, wire, phase := .seeking }] } : Channel).ledger =
          { target.ledger with calls := target.ledger.calls ++
            [{ requestId := (nextId ch.lastId).toUInt64, wire, phase := .seeking }] } := rfl
      rw [started, registered]
      exact .register rfl encoded (Decidable.not_not.mp shared)

theorem turn_seek (n : Nat) : Turn ch.ledger none none (ch.seek n).ledger := by
  simp only [seek]
  split
  · next here _ =>
    split
    · exact turn_setPhase ch here rfl rfl rfl
    · exact turn_setPhase ch here rfl rfl rfl
  · exact .rest

theorem turn_dialed (n : Nat) (failure : Option Failure) :
    Turn ch.ledger none none (ch.dialed n failure).ledger := by
  simp only [dialed]
  split
  · next here =>
    split
    · exact turn_fail { ch with dialer := none } here rfl
    · exact turn_setPhase ch here rfl rfl rfl
  · exact .rest

theorem turn_enter (n : Nat) : Turn ch.ledger none none (ch.enter n).ledger := by
  simp only [enter]
  split
  · next c here =>
    split
    · exact turn_startWriting (ch.modifyConn c _) here rfl rfl
    · exact turn_setPhase (ch.modifyConn c _) here rfl rfl rfl
  · next c here =>
    split
    · exact turn_startWriting ch here rfl rfl
    · exact .rest
  · exact .rest

theorem turn_stopWriting {rest : Bytes} {failure : Failure}
    (here : ch.phase? n = some (.writing c rest)) :
    Turn ch.ledger none none (ch.stopWriting n c failure).ledger :=
  turn_setPhase ((ch.dropIfClosed c).release c) here rfl rfl rfl

theorem turn_write (n count : Nat) : Turn ch.ledger none none (ch.write n count).ledger := by
  simp only [write]
  split
  · next c rest here =>
    split
    · exact turn_setPhase ((ch.dropIfClosed c).release c) here rfl rfl rfl
    · exact turn_setPhase ch here rfl rfl rfl
  · exact .rest

theorem turn_writeFailed (n : Nat) (flaw : TransportFlaw) :
    Turn ch.ledger none none (ch.writeFailed n flaw).ledger := by
  simp only [writeFailed]
  split
  · next here => exact turn_stopWriting ch here
  · exact .rest

theorem turn_abort (n : Nat) : Turn ch.ledger none none (ch.abort n).ledger := by
  simp only [abort]
  split
  · next here =>
    split
    · exact turn_stopWriting ch here
    · exact .rest
  · exact .rest

theorem turn_giveUp (n : Nat) : Turn ch.ledger none none (ch.giveUp n).ledger := by
  simp only [giveUp]
  split
  · next c here => exact turn_fail (ch.close c .broken) here rfl
  · next c failure here => exact turn_setPhase (ch.close c .broken) here rfl rfl rfl
  · exact .rest

theorem turn_clear (n : Nat) : Turn ch.ledger none none (ch.clear n).ledger := by
  simp only [clear]
  split
  · next c failure here _ =>
    exact turn_retry { ch with current := ch.current.filter (· != c) } here rfl rfl
  · exact .rest

theorem turn_resume (n : Nat) : Turn ch.ledger none none (ch.resume n).ledger := by
  simp only [resume]
  split
  · next here =>
    apply turn_settle ch here
    split
    · exact turn_fail ch here rfl
    · exact .rest
  · exact .rest

theorem turn_deadline (n : Nat) : Turn ch.ledger none none (ch.deadline n).ledger := by
  simp only [deadline]
  split
  · next c here =>
    split
    · exact .rest
    · exact turn_fail (ch.leaveQueue c n) here rfl
  · next c rest here => exact turn_setPhase (ch.release c) here rfl rfl rfl
  · next here => exact turn_retry ch here rfl rfl
  · exact turn_expire ch n

theorem turn_drop (n : Nat) : Turn ch.ledger none none (ch.drop n).ledger := by
  simp only [drop]
  split
  · next here => exact turn_dropped ch here rfl
  · next here => exact turn_dropped ch here rfl
  · next here => exact turn_dropped ch here rfl
  · next here => exact turn_dropped ch here rfl
  · next here => exact turn_dropped { ch with dialer := none } here rfl
  · next c here =>
    split
    · exact turn_dropped (ch.release c) here rfl
    · exact turn_dropped (ch.leaveQueue c n) here rfl
  · next c rest here => exact turn_dropped (ch.release c) here rfl
  · exact .rest

theorem turn_decode (c : Nat) :
    Turn ch.ledger none (ch.handed? (.decode c)) (ch.decode c).ledger := by
  simp only [decode, handed?, response?]
  cases taken : ch.decoded? c with
  | none => exact .rest
  | some decoded =>
    cases decoded with
    | incomplete => exact .rest
    | failed error buffer => exact .rest
    | frame frame buffer =>
      by_cases response : frame.isResponse = true
      · simp only [response, if_true, Option.bind_some]
        exact turn_deliver (ch.modifyConn c _) response
      · simp only [response, Bool.false_eq_true, if_false, Option.bind_none]
        exact .rest

theorem turn_readerStops (c : Nat) : Turn ch.ledger none none (ch.readerStops c).ledger := by
  have stays : (ch.readerStops c).ledger = ch.ledger := by
    simp only [readerStops]
    split
    · split
      · rfl
      · split <;> rfl
      · rfl
    · rfl
  rw [stays]
  exact .rest

theorem turn_directDialed (n : Nat) (flaw : Option TransportFlaw) :
    Turn ch.ledger none none (ch.directDialed n flaw).ledger := by
  simp only [directDialed]
  split
  · next here =>
    split
    · exact turn_fail ch here rfl
    · obtain ⟨call, found, phase⟩ := phase?_eq_some.mp here
      exact .advance _ found (by rw [phase]; rfl) rfl (by rw [phase]; rfl) rfl rfl rfl
  · exact .rest

theorem turn_directWrite (n count : Nat) :
    Turn ch.ledger none none (ch.directWrite n count).ledger := by
  simp only [directWrite]
  split
  · next here => exact turn_setPhase ch here rfl rfl rfl
  · exact .rest

theorem turn_directWriteFailed (n : Nat) (flaw : TransportFlaw) :
    Turn ch.ledger none none (ch.directWriteFailed n flaw).ledger := by
  simp only [directWriteFailed]
  split
  · next here => exact turn_fail ch here rfl
  · exact .rest

theorem turn_directRead (n : Nat) (input : DirectInput) :
    Turn ch.ledger none none (ch.directRead n input).ledger := by
  simp only [directRead]
  split
  · next address buffer here =>
    split
    · exact turn_fail ch here rfl
    · exact turn_fail ch here rfl
    · split
      · next frame _ =>
        obtain ⟨call, found, phase⟩ := phase?_eq_some.mp here
        refine turn_answer ch found (by rw [phase]; rfl) ?_
        intro shared
        rw [phase] at shared
        cases shared
      · split
        · exact turn_fail ch here rfl
        · exact turn_setPhase ch here rfl rfl rfl
  · exact .rest

/-- Every step is a turn: it starts, moves, answers or ends at most one call. -/
theorem step_turn (ch : Channel) (event : Event) :
    Turn ch.ledger event.request? (ch.handed? event) (ch.step event).ledger := by
  cases event with
  | start request => exact turn_start ch request
  | seek n => exact turn_seek ch n
  | dialed n failure => exact turn_dialed ch n failure
  | enter n => exact turn_enter ch n
  | write n count => exact turn_write ch n count
  | writeFailed n flaw => exact turn_writeFailed ch n flaw
  | abort n => exact turn_abort ch n
  | giveUp n => exact turn_giveUp ch n
  | clear n => exact turn_clear ch n
  | resume n => exact turn_resume ch n
  | deadline n => exact turn_deadline ch n
  | cancel n => exact turn_expire ch n
  | drop n => exact turn_drop ch n
  | received c bytes => exact .rest
  | decode c => exact turn_decode ch c
  | ended c => exact .rest
  | readerStops c => exact turn_readerStops ch c
  | directDialed n flaw => exact turn_directDialed ch n flaw
  | directWrite n count => exact turn_directWrite ch n count
  | directWriteFailed n flaw => exact turn_directWriteFailed ch n flaw
  | directRead n input => exact turn_directRead ch n input

end Channel
end RpcClient.Multiplex
