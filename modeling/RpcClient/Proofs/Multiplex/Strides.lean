import RpcClient.Proofs.Multiplex.Moves

/-! What a step does to the call that takes it, and what that call does to its connection on the way.
All other calls keep their phase. -/
namespace RpcClient.Multiplex

namespace Event

/-- The call that takes the step. The others are taken by readers, or start a call. -/
def caller? : Event → Option Nat
  | .start _ | .received _ _ | .decode _ | .ended _ | .readerStops _ => none
  | .seek n | .dialed n _ | .enter n | .write n _ | .writeFailed n _ | .abort n | .giveUp n | .clear n
  | .resume n | .deadline n | .cancel n | .drop n | .directDialed n _ | .directWrite n _
  | .directWriteFailed n _ | .directRead n _ => some n

/-- Whether the step tells call `n` that its time is over. -/
def IsExpiry (event : Event) (n : Nat) : Prop :=
  event = .deadline n ∨ event = .cancel n

end Event

/-- The connection whose writer the call waits for or has. -/
def Phase.line? : Phase → Option Nat
  | .queued c | .writing c _ => some c
  | _ => none

/-- What a call does to the connections. -/
inductive Effect where
  | none
  | connect
  /-- It takes the writer, which is free. -/
  | take (c : Nat)
  | queue (c : Nat)
  | leave (c : Nat)
  /-- It gives the writer to the next call, perhaps after dropping the writing side of a connection that
  is closed. -/
  | release (c : Nat) (drops : Bool)
  | close (c : Nat)

namespace Effect

def conn? : Effect → Option Nat
  | none | connect => .none
  | take c | queue c | leave c | release c _ | close c => some c

/-- What becomes of a connection by the effect of call `n` on it. -/
def touch (n : Nat) (conn : Connection) : Effect → Connection
  | none | connect => conn
  | take _ => { conn with holder := some n }
  | queue _ => { conn with queue := conn.queue ++ [n] }
  | leave _ => { conn with queue := conn.queue.filter (· != n) }
  | release _ drops =>
    { conn with
      writable := conn.writable && !(drops && conn.closed)
      holder := conn.queue.head?
      queue := conn.queue.tail }
  | close _ =>
    { conn with
      closed := true
      reason := conn.reason <|> some .broken
      writable := conn.writable && conn.holder.isSome }

def apply (n : Nat) (conns : List Connection) (effect : Effect) : List Connection :=
  match effect with
  | none => conns
  | connect => conns ++ [.fresh]
  | take c | queue c | leave c | release c _ | close c => conns.modify c fun conn => effect.touch n conn

/-- A connection was just started, or was touched, or is as it was. -/
theorem apply_cases {n c : Nat} {effect : Effect} {conns : List Connection} {conn' : Connection}
    (place : (effect.apply n conns)[c]? = some conn') :
    (effect = connect ∧ c = conns.length ∧ conn' = .fresh) ∨
      ∃ conn, conns[c]? = some conn ∧
        conn' = if effect.conn? = some c then effect.touch n conn else conn := by
  cases effect with
  | none => exact .inr ⟨conn', place, rfl⟩
  | connect =>
    rw [apply, getElem?_concat] at place
    split at place
    · next last => exact .inl ⟨rfl, last, (Option.some.inj place).symm⟩
    · exact .inr ⟨conn', place, rfl⟩
  | _ =>
    obtain ⟨conn, found, rfl⟩ := exists_of_getElem?_modify place
    exact .inr ⟨conn, found, by simp only [conn?, Option.some.injEq]⟩

theorem getElem?_apply {n c : Nat} {effect : Effect} {conns : List Connection} {conn : Connection}
    (before : conns[c]? = some conn) :
    (effect.apply n conns)[c]? =
      some (if effect.conn? = some c then effect.touch n conn else conn) := by
  cases effect with
  | none => exact before
  | connect =>
    rw [apply, List.getElem?_append_left (List.getElem?_eq_some_iff.mp before).1]
    exact before
  | _ =>
    simp only [apply, conn?, Option.some.injEq, List.getElem?_modify, before, Option.map_eq_map,
      Option.map_some]

end Effect

def Channel.holder? (ch : Channel) (c : Nat) : Option Nat :=
  ch.conns[c]?.bind Connection.holder

/-- What a call does on a connection of its own: from its phase, by an event of its own, to the next. -/
inductive Solo (n : Nat) (call : Call) : Event → Phase → Prop where
  | refused {address : String} {flaw : TransportFlaw} : call.phase = .direct address .dialing →
      Solo n call (.directDialed n (some flaw)) (.done (.error (.connectionFailed (.dial address flaw))))
  | connect {address : String} : call.phase = .direct address .dialing →
      Solo n call (.directDialed n none) (.direct address (.writing call.wire))
  | write {address : String} {rest : Bytes} {count : Nat} : call.phase = .direct address (.writing rest) →
      Solo n call (.directWrite n count)
        (.direct address (if rest.length ≤ count then .reading [] else .writing (rest.drop count)))
  | writeFailed {address : String} {rest : Bytes} {flaw : TransportFlaw} :
      call.phase = .direct address (.writing rest) →
      Solo n call (.directWriteFailed n flaw) (.done (.error (.unavailable (.write flaw))))
  | read {address : String} {buffer : Bytes} {input : DirectInput} {phase : Phase} :
      call.phase = .direct address (.reading buffer) →
      phase.isEnded = true ∨ (∃ rest, phase = .direct address (.reading rest)) →
      Solo n call (.directRead n input) phase

/-- The strides of a call: from its phase, by an event of its own, to the next. -/
inductive Stride (ch : Channel) (n : Nat) (call : Call) : Event → Phase → Effect → Prop where
  | find {c : Nat} : call.phase = .seeking → ch.dialer = none → ch.open? = some c →
      Stride ch n call (.seek n) (.entering c) .none
  | dial : call.phase = .seeking → ch.dialer = none → ch.open? = none →
      Stride ch n call (.seek n) .dialing .none
  | connect : call.phase = .dialing →
      Stride ch n call (.dialed n none) (.entering ch.conns.length) .connect
  | refused {failure : Failure} : call.phase = .dialing →
      Stride ch n call (.dialed n (some failure)) (.done (.error failure)) .none
  | take {c : Nat} {conn : Connection} : call.phase = .entering c → ch.conns[c]? = some conn →
      conn.holder = none → conn.writable = true →
      Stride ch n call (.enter n) (.writing c call.wire) (.take c)
  | queue {c : Nat} {conn : Connection} : call.phase = .entering c → ch.conns[c]? = some conn →
      conn.holder ≠ none → Stride ch n call (.enter n) (.queued c) (.queue c)
  /-- It was given the writer. -/
  | begin {c : Nat} {conn : Connection} : call.phase = .queued c → ch.conns[c]? = some conn →
      conn.holder = some n → conn.writable = true →
      Stride ch n call (.enter n) (.writing c call.wire) .none
  /-- It has the writer and finds that there is nothing to write to. -/
  | miss {c : Nat} {conn : Connection} : ch.conns[c]? = some conn → conn.writable = false →
      call.phase = .entering c ∧ conn.holder = none ∨ call.phase = .queued c ∧ conn.holder = some n →
      Stride ch n call (.enter n) (.failed c .connectionClosed) (.release c false)
  | writeSome {c count : Nat} {rest : Bytes} : call.phase = .writing c rest → count < rest.length →
      Stride ch n call (.write n count) (.writing c (rest.drop count)) .none
  | writeAll {c count : Nat} {rest : Bytes} : call.phase = .writing c rest → rest.length ≤ count →
      Stride ch n call (.write n count) (.waiting c) (.release c true)
  | writeFailed {c : Nat} {rest : Bytes} {flaw : TransportFlaw} : call.phase = .writing c rest →
      Stride ch n call (.writeFailed n flaw) (.failed c (.unavailable (.write flaw))) (.release c true)
  | abort {c : Nat} {rest : Bytes} : call.phase = .writing c rest → ch.isClosed c = true →
      Stride ch n call (.abort n) (.failed c .connectionClosed) (.release c true)
  | expire {c : Nat} {rest : Bytes} : call.phase = .writing c rest →
      Stride ch n call (.deadline n) (.expired c) (.release c false)
  /-- It closes the connection that it left with part of its frame. -/
  | tear {c : Nat} : call.phase = .expired c →
      Stride ch n call (.giveUp n) (.done (.error .timeout)) (.close c)
  /-- It closes the connection that it could not write on. -/
  | shut {c : Nat} {failure : Failure} : call.phase = .failed c failure →
      Stride ch n call (.giveUp n) (.clearing c failure) (.close c)
  | again {event : Event} {c : Nat} {failure : Failure} : call.phase = .clearing c failure →
      event = .clear n ∨ event = .deadline n → 1 < call.attempts →
      Stride ch n call event .seeking .none
  | exhausted {event : Event} {c : Nat} {failure : Failure} : call.phase = .clearing c failure →
      event = .clear n ∨ event = .deadline n → call.attempts ≤ 1 →
      Stride ch n call event (.done (.error failure)) .none
  | answered {event : Event} {c : Nat} {frame : Frame} : call.phase = .waiting c →
      call.mailbox = .full frame → event = .resume n ∨ event.IsExpiry n →
      Stride ch n call event (.done ((ch.codec.ofFrame frame).mapError .wire)) .none
  /-- Another call was given its number. -/
  | displaced {event : Event} {c : Nat} : call.phase = .waiting c → call.mailbox = .abandoned →
      event = .resume n ∨ event.IsExpiry n →
      Stride ch n call event (.done (.error (ch.closeFailure c))) .none
  | cut {c : Nat} : call.phase = .waiting c → call.mailbox = .empty → ch.isClosed c = true →
      Stride ch n call (.resume n) (.done (.error (ch.closeFailure c))) .none
  | timeout {event : Event} :
      call.phase = .seeking ∨ call.phase = .dialing ∨ call.phase.isDirect = true ∨
        (∃ c, call.phase = .waiting c ∧ call.mailbox = .empty) →
      event.IsExpiry n → Stride ch n call event (.done (.error .timeout)) .none
  /-- It runs out of time before it is given the writer. -/
  | leave {c : Nat} : call.phase = .queued c → ch.holder? c ≠ some n →
      Stride ch n call (.deadline n) (.done (.error .timeout)) (.leave c)
  | drop : call.phase.isEnded = false → call.phase.line? = none →
      Stride ch n call (.drop n) .dropped .none
  | dropQueued {c : Nat} : call.phase = .queued c → ch.holder? c ≠ some n →
      Stride ch n call (.drop n) .dropped (.leave c)
  | dropWriter {c : Nat} :
      call.phase = .queued c ∧ ch.holder? c = some n ∨ (∃ rest, call.phase = .writing c rest) →
      Stride ch n call (.drop n) .dropped (.release c false)
  /-- It uses a connection of its own. -/
  | direct {event : Event} {phase : Phase} : Solo n call event phase → Stride ch n call event phase .none

theorem Phase.isEnded_of_isDirect {phase : Phase} (direct : phase.isDirect = true) :
    phase.isEnded = false := by
  cases phase <;> first | rfl | cases direct

theorem Solo.exists_stage {n : Nat} {call : Call} {event : Event} {phase : Phase}
    (solo : Solo n call event phase) : ∃ address stage, call.phase = .direct address stage := by
  cases solo with
  | refused here | connect here | write here | writeFailed here | read here => exact ⟨_, _, here⟩

theorem Solo.isDirect {n : Nat} {call : Call} {event : Event} {phase : Phase}
    (solo : Solo n call event phase) : call.phase.isDirect = true := by
  obtain ⟨address, stage, here⟩ := solo.exists_stage
  rw [here]
  rfl

/-- A call with a connection of its own stays there. -/
theorem Solo.stays {n : Nat} {call : Call} {event : Event} {phase : Phase}
    (solo : Solo n call event phase) : phase.isDirect = true ∨ phase.isEnded = true := by
  cases solo with
  | refused | writeFailed => exact .inr rfl
  | connect | write => exact .inl rfl
  | read _ next =>
    obtain ends | ⟨rest, rfl⟩ := next
    · exact .inr ends
    · exact .inl rfl

theorem Stride.live {ch : Channel} {n : Nat} {call : Call} {event : Event} {phase : Phase}
    {effect : Effect} (stride : Stride ch n call event phase effect) : call.phase.isEnded = false := by
  cases stride with
  | miss _ _ place => obtain ⟨here, _⟩ | ⟨here, _⟩ := place <;> rw [here] <;> rfl
  | dropWriter place => obtain ⟨here, _⟩ | ⟨_, here⟩ := place <;> rw [here] <;> rfl
  | timeout place =>
    obtain here | here | direct | ⟨_, here, _⟩ := place
    · rw [here]; rfl
    · rw [here]; rfl
    · exact Phase.isEnded_of_isDirect direct
    · rw [here]; rfl
  | direct solo => exact Phase.isEnded_of_isDirect solo.isDirect
  | drop live => exact live
  | find here | dial here | connect here | refused here | take here | queue here | begin here
  | writeSome here | writeAll here | writeFailed here | abort here | expire here | tear here
  | shut here | again here | exhausted here | answered here | displaced here | cut here | leave here
  | dropQueued here =>
    rw [here]
    rfl

/-- How many attempts a call has left at its next phase. Looking for a connection again takes one. -/
def Call.left (call : Call) : Phase → Nat
  | .seeking => call.attempts - 1
  | _ => call.attempts

theorem Call.left_of_isEnded {phase : Phase} (call : Call) (ends : phase.isEnded = true) :
    call.left phase = call.attempts := by
  cases phase <;> first | rfl | cases ends

/-- A call has gone to `phase`. If it has ended, its waiter is gone. -/
structure Took (ch : Channel) (n : Nat) (call : Call) (phase : Phase) (effect : Effect)
    (ch' : Channel) : Prop where
  calls : ∀ m, ch'.calls[m]? =
    if n = m then some { call with attempts := call.left phase, phase } else ch.calls[m]?
  conns : ch'.conns = effect.apply n ch.conns
  pending : ch'.pending =
    if phase.isEnded && !call.phase.isDirect then ch.pending.filter (·.1 != call.requestId)
    else ch.pending

/-- What a step does to the call that takes it. -/
inductive Goes (ch : Channel) (n : Nat) (call : Call) (event : Event) : Channel → Prop where
  | rest : Goes ch n call event ch
  | stride {phase : Phase} {effect : Effect} {ch' : Channel} : Stride ch n call event phase effect →
      Took ch n call phase effect ch' → Goes ch n call event ch'

namespace Channel

variable {ch ch' : Channel} {n c : Nat} {call : Call} {phase : Phase} {effect : Effect}

theorem phase_eq (found : ch.calls[n]? = some call) (here : ch.phase? n = some phase) :
    call.phase = phase := by
  rw [phase?, found] at here
  exact Option.some.inj here

/-! ### Strides that the operations of a channel take -/

theorem conns_release (ch : Channel) (n c : Nat) :
    (ch.release c).conns = (Effect.release c false).apply n ch.conns := by
  simp only [release, modifyConn, Effect.apply, Effect.touch, Bool.false_and, Bool.not_false, Bool.and_true]

theorem conns_dropIfClosed_release (ch : Channel) (n c : Nat) :
    ((ch.dropIfClosed c).release c).conns = (Effect.release c true).apply n ch.conns := by
  simp only [release, dropIfClosed, modifyConn, List.modify_modify_eq, Effect.apply, Effect.touch, Bool.true_and]
  rfl

theorem took_setPhase (found : ch.calls[n]? = some call) (calls : ch'.calls = ch.calls)
    (conns : ch'.conns = effect.apply n ch.conns) (pending : ch'.pending = ch.pending)
    (goesOn : (phase.isEnded && !call.phase.isDirect) = false) (same : call.left phase = call.attempts) :
    Took ch n call phase effect (ch'.setPhase n phase) := by
  refine ⟨fun m => ?_, conns, by rw [goesOn]; exact pending⟩
  rw [setPhase, modifyCall, calls, getElem?_modify_of_eq_some found, same]

theorem finish_of_direct (found : ch.calls[n]? = some call) (direct : call.phase.isDirect = true)
    (phase : Phase) : ch.finish n phase = ch.setPhase n phase := by
  cases kind : call.phase with
  | direct address stage => simp only [finish, found, kind]
  | _ => rw [kind] at direct; cases direct

theorem finish_of_shared (found : ch.calls[n]? = some call) (shared : call.phase.isDirect = false)
    (phase : Phase) : ch.finish n phase = (ch.unregister call.requestId).setPhase n phase := by
  cases kind : call.phase with
  | direct address stage => rw [kind] at shared; cases shared
  | _ => simp only [finish, found, kind]

theorem took_finish (found : ch.calls[n]? = some call) (calls : ch'.calls = ch.calls)
    (conns : ch'.conns = effect.apply n ch.conns) (pending : ch'.pending = ch.pending)
    (ends : phase.isEnded = true) : Took ch n call phase effect (ch'.finish n phase) := by
  have found' : ch'.calls[n]? = some call := calls ▸ found
  cases direct : call.phase.isDirect with
  | true =>
    rw [finish_of_direct found' direct]
    exact took_setPhase found calls conns pending (by rw [direct, Bool.not_true, Bool.and_false])
      (call.left_of_isEnded ends)
  | false =>
    rw [finish_of_shared found' direct]
    refine ⟨fun m => ?_, conns, ?_⟩
    · rw [setPhase, modifyCall, unregister, calls, getElem?_modify_of_eq_some found,
        call.left_of_isEnded ends]
    · rw [ends, direct, setPhase, modifyCall, unregister, pending]
      rfl

variable (found : ch.calls[n]? = some call)
include found

theorem goes_seek : Goes ch n call (.seek n) (ch.seek n) := by
  simp only [seek]
  split
  · next here free =>
    have here := phase_eq found here
    split
    · next c shared => exact .stride (.find here free shared) (took_setPhase found rfl rfl rfl rfl rfl)
    · next none =>
      have took : Took ch n call .dialing .none (ch.setPhase n .dialing) :=
        took_setPhase found rfl rfl rfl rfl rfl
      exact .stride (.dial here free none) ⟨took.calls, took.conns, took.pending⟩
  · exact .rest

theorem goes_dialed (failure : Option Failure) :
    Goes ch n call (.dialed n failure) (ch.dialed n failure) := by
  simp only [dialed]
  split
  · next here =>
    have here := phase_eq found here
    cases failure with
    | some failure => exact .stride (.refused here) (took_finish found rfl rfl rfl rfl)
    | none =>
      have took : Took ch n call (.entering ch.conns.length) .none
          (({ ch with dialer := none } : Channel).setPhase n (.entering ch.conns.length)) :=
        took_setPhase found rfl rfl rfl rfl rfl
      exact .stride (.connect here) ⟨took.calls, rfl, took.pending⟩
  · exact .rest

theorem goes_enter : Goes ch n call (.enter n) (ch.enter n) := by
  simp only [enter]
  split
  · next c here =>
    have here := phase_eq found here
    cases place : ch.conns[c]? with
    | none =>
      have same : ∀ f, ch.modifyConn c f = ch := fun f => by
        rw [modifyConn, List.modify_eq_self (List.getElem?_eq_none_iff.mp place)]
      simp only [Option.bind_none, same, startWriting, found, place]
      exact .rest
    | some conn =>
      cases held : conn.holder with
      | none =>
        simp only [Option.bind_some, held, startWriting, modifyConn, found, List.getElem?_modify_eq,
          place, Option.map_eq_map, Option.map_some]
        split
        · next writable =>
          exact .stride (.take here place held writable) (took_setPhase found rfl rfl rfl rfl rfl)
        · next broken =>
          refine .stride (.miss place (Bool.eq_false_iff.mpr broken) (.inl ⟨here, held⟩))
            (took_setPhase found rfl ?_ rfl rfl rfl)
          simp only [release, modifyConn, List.modify_modify_eq, Effect.apply, Effect.touch, Bool.false_and,
            Bool.not_false, Bool.and_true]
          rfl
      | some m =>
        simp only [Option.bind_some, held]
        exact .stride (.queue here place (by rw [held]; exact Option.some_ne_none m))
          (took_setPhase found rfl rfl rfl rfl rfl)
  · next c here =>
    have here := phase_eq found here
    split
    · next mine =>
      obtain ⟨conn, place, held⟩ := Option.bind_eq_some_iff.mp mine
      simp only [startWriting, found, place]
      split
      · next writable =>
        exact .stride (.begin here place held writable) (took_setPhase found rfl rfl rfl rfl rfl)
      · next broken =>
        exact .stride (.miss place (Bool.eq_false_iff.mpr broken) (.inr ⟨here, held⟩))
          (took_setPhase found rfl (conns_release ch n c) rfl rfl rfl)
    · exact .rest
  · exact .rest

theorem goes_stopWriting {event : Event} {failure : Failure}
    (stride : Stride ch n call event (.failed c failure) (.release c true)) :
    Goes ch n call event (ch.stopWriting n c failure) :=
  .stride stride (took_setPhase found rfl (conns_dropIfClosed_release ch n c) rfl rfl rfl)

theorem goes_write (count : Nat) : Goes ch n call (.write n count) (ch.write n count) := by
  simp only [write]
  split
  · next c rest here =>
    have here := phase_eq found here
    split
    · next last =>
      exact .stride (.writeAll here last)
        (took_setPhase found rfl (conns_dropIfClosed_release ch n c) rfl rfl rfl)
    · next more =>
      exact .stride (.writeSome here (Nat.lt_of_not_le more)) (took_setPhase found rfl rfl rfl rfl rfl)
  · exact .rest

theorem goes_writeFailed (flaw : TransportFlaw) :
    Goes ch n call (.writeFailed n flaw) (ch.writeFailed n flaw) := by
  simp only [writeFailed]
  split
  · next here => exact goes_stopWriting found (.writeFailed (phase_eq found here))
  · exact .rest

theorem goes_abort : Goes ch n call (.abort n) (ch.abort n) := by
  simp only [abort]
  split
  · next here =>
    split
    · next closed => exact goes_stopWriting found (.abort (phase_eq found here) closed)
    · exact .rest
  · exact .rest

theorem goes_giveUp : Goes ch n call (.giveUp n) (ch.giveUp n) := by
  simp only [giveUp]
  split
  · next here => exact .stride (.tear (phase_eq found here)) (took_finish found rfl rfl rfl rfl)
  · next here => exact .stride (.shut (phase_eq found here)) (took_setPhase found rfl rfl rfl rfl rfl)
  · exact .rest

theorem goes_retry {event : Event} {failure : Failure} (here : call.phase = .clearing c failure)
    (own : event = .clear n ∨ event = .deadline n) (calls : ch'.calls = ch.calls)
    (conns : ch'.conns = ch.conns) (pending : ch'.pending = ch.pending) :
    Goes ch n call event (ch'.retry n failure) := by
  simp only [retry, calls ▸ found]
  split
  · next last => exact .stride (.exhausted here own last) (took_finish found calls conns pending rfl)
  · next more =>
    refine .stride (.again here own (Nat.lt_of_not_le more)) ⟨fun m => ?_, conns, pending⟩
    rw [modifyCall, calls, getElem?_modify_of_eq_some found, Call.left]

theorem goes_clear : Goes ch n call (.clear n) (ch.clear n) := by
  simp only [clear]
  split
  · next here _ => exact goes_retry found (phase_eq found here) (.inl rfl) rfl rfl rfl
  · exact .rest

theorem goes_settle {event : Event} {otherwise : Channel} (here : call.phase = .waiting c)
    (own : event = .resume n ∨ event.IsExpiry n)
    (empty : call.mailbox = .empty → Goes ch n call event otherwise) :
    Goes ch n call event (ch.settle n c otherwise) := by
  simp only [settle, found, outcome?]
  cases given : call.mailbox with
  | empty => exact empty given
  | full frame => exact .stride (.answered here given own) (took_finish found rfl rfl rfl rfl)
  | abandoned => exact .stride (.displaced here given own) (took_finish found rfl rfl rfl rfl)

theorem goes_resume : Goes ch n call (.resume n) (ch.resume n) := by
  simp only [resume]
  split
  · next c here =>
    have here := phase_eq found here
    refine goes_settle found here (.inl rfl) fun empty => ?_
    split
    · next closed => exact .stride (.cut here empty closed) (took_finish found rfl rfl rfl rfl)
    · exact .rest
  · exact .rest

theorem goes_expire {event : Event} (own : event.IsExpiry n) : Goes ch n call event (ch.expire n) := by
  simp only [expire]
  split
  · next here =>
    exact .stride (.timeout (.inl (phase_eq found here)) own) (took_finish found rfl rfl rfl rfl)
  · next here =>
    have direct : call.phase.isDirect = true := by rw [phase_eq found here]; rfl
    exact .stride (.timeout (.inr (.inr (.inl direct))) own) (took_finish found rfl rfl rfl rfl)
  · next here =>
    exact .stride (.timeout (.inr (.inl (phase_eq found here))) own)
      (took_finish found rfl rfl rfl rfl)
  · next c here =>
    have here := phase_eq found here
    refine goes_settle found here (.inr own) fun empty => ?_
    exact .stride (.timeout (.inr (.inr (.inr ⟨c, here, empty⟩))) own)
      (took_finish found rfl rfl rfl rfl)
  · exact .rest

theorem goes_deadline : Goes ch n call (.deadline n) (ch.deadline n) := by
  simp only [deadline]
  split
  · next c here =>
    have here := phase_eq found here
    split
    · exact .rest
    · next other => exact .stride (.leave here other) (took_finish found rfl rfl rfl rfl)
  · next c rest here =>
    exact .stride (.expire (phase_eq found here))
      (took_setPhase found rfl (conns_release ch n c) rfl rfl rfl)
  · next here => exact goes_retry found (phase_eq found here) (.inr rfl) rfl rfl rfl
  · exact goes_expire found (.inl rfl)

theorem goes_dropped {old : Phase} (here : ch.phase? n = some old) (live : old.isEnded = false)
    (away : old.line? = none) (calls : ch'.calls = ch.calls) (conns : ch'.conns = ch.conns)
    (pending : ch'.pending = ch.pending) : Goes ch n call (.drop n) (ch'.finish n .dropped) := by
  rw [← phase_eq found here] at live away
  exact .stride (.drop live away) (took_finish found calls conns pending rfl)

theorem goes_drop : Goes ch n call (.drop n) (ch.drop n) := by
  simp only [drop]
  split
  · next here => exact goes_dropped found here rfl rfl rfl rfl rfl
  · next here => exact goes_dropped found here rfl rfl rfl rfl rfl
  · next here => exact goes_dropped found here rfl rfl rfl rfl rfl
  · next here => exact goes_dropped found here rfl rfl rfl rfl rfl
  · next here => exact goes_dropped found here rfl rfl rfl rfl rfl
  · next c here =>
    have here := phase_eq found here
    split
    · next mine =>
      exact .stride (.dropWriter (.inl ⟨here, mine⟩))
        (took_finish found rfl (conns_release ch n c) rfl rfl)
    · next other => exact .stride (.dropQueued here other) (took_finish found rfl rfl rfl rfl)
  · next c rest here =>
    exact .stride (.dropWriter (.inr ⟨rest, phase_eq found here⟩))
      (took_finish found rfl (conns_release ch n c) rfl rfl)
  · exact .rest

/-! ### Calls with a connection of their own -/

theorem goes_solo {event : Event} (solo : Solo n call event phase) (direct : phase.isDirect = true) :
    Goes ch n call event (ch.setPhase n phase) := by
  refine .stride (.direct solo) (took_setPhase found rfl rfl rfl ?_ ?_)
  all_goals
    cases phase with
    | direct address stage => rfl
    | _ => cases direct

theorem goes_soloEnds {event : Event} (solo : Solo n call event phase) (ends : phase.isEnded = true) :
    Goes ch n call event (ch.finish n phase) :=
  .stride (.direct solo) (took_finish found rfl rfl rfl ends)

theorem goes_directDialed (flaw : Option TransportFlaw) :
    Goes ch n call (.directDialed n flaw) (ch.directDialed n flaw) := by
  simp only [directDialed]
  split
  · next address here =>
    have here := phase_eq found here
    cases flaw with
    | some flaw => exact goes_soloEnds found (.refused here) rfl
    | none =>
      refine .stride (.direct (.connect here)) ⟨fun m => ?_, rfl, rfl⟩
      simp only [modifyCall, getElem?_modify_of_eq_some found, Call.left]
  · exact .rest

theorem goes_directWrite (count : Nat) :
    Goes ch n call (.directWrite n count) (ch.directWrite n count) := by
  simp only [directWrite]
  split
  · next here => exact goes_solo found (.write (phase_eq found here)) rfl
  · exact .rest

theorem goes_directWriteFailed (flaw : TransportFlaw) :
    Goes ch n call (.directWriteFailed n flaw) (ch.directWriteFailed n flaw) := by
  simp only [directWriteFailed]
  split
  · next here => exact goes_soloEnds found (.writeFailed (phase_eq found here)) rfl
  · exact .rest

theorem goes_directRead (input : DirectInput) :
    Goes ch n call (.directRead n input) (ch.directRead n input) := by
  simp only [directRead]
  split
  · next address buffer here =>
    have solo : ∀ {phase : Phase}, phase.isEnded = true ∨ (∃ rest, phase = .direct address (.reading rest)) →
        Solo n call (.directRead n input) phase := .read (phase_eq found here)
    split
    · exact goes_soloEnds found (solo (.inl rfl)) rfl
    · exact goes_soloEnds found (solo (.inl rfl)) rfl
    · split
      · exact goes_soloEnds found (solo (.inl rfl)) rfl
      · split
        · exact goes_soloEnds found (solo (.inl rfl)) rfl
        · exact goes_solo found (solo (.inr ⟨_, rfl⟩)) rfl
  · exact .rest

/-- Calls take strides and nothing else. -/
theorem step_goes {event : Event} (own : event.caller? = some n) :
    Goes ch n call event (ch.step event) := by
  cases event with
  | seek m => cases own; exact goes_seek found
  | dialed m failure => cases own; exact goes_dialed found failure
  | enter m => cases own; exact goes_enter found
  | write m count => cases own; exact goes_write found count
  | writeFailed m flaw => cases own; exact goes_writeFailed found flaw
  | abort m => cases own; exact goes_abort found
  | giveUp m => cases own; exact goes_giveUp found
  | clear m => cases own; exact goes_clear found
  | resume m => cases own; exact goes_resume found
  | deadline m => cases own; exact goes_deadline found
  | cancel m => cases own; exact goes_expire found (.inr rfl)
  | drop m => cases own; exact goes_drop found
  | directDialed m flaw => cases own; exact goes_directDialed found flaw
  | directWrite m count => cases own; exact goes_directWrite found count
  | directWriteFailed m flaw => cases own; exact goes_directWriteFailed found flaw
  | directRead m input => cases own; exact goes_directRead found input
  | _ => cases own

omit found in
theorem step_of_absent {event : Event} (own : event.caller? = some n) (absent : ch.calls[n]? = none) :
    ch.step event = ch := by
  have here : ch.phase? n = none := by rw [phase?, absent, Option.map_none]
  cases event with
  | seek m => cases own; simp only [step, seek, here]
  | dialed m failure => cases own; simp only [step, dialed, here]
  | enter m => cases own; simp only [step, enter, here]
  | write m count => cases own; simp only [step, write, here]
  | writeFailed m flaw => cases own; simp only [step, writeFailed, here]
  | abort m => cases own; simp only [step, abort, here]
  | giveUp m => cases own; simp only [step, giveUp, here]
  | clear m => cases own; simp only [step, clear, here]
  | resume m => cases own; simp only [step, resume, here]
  | deadline m => cases own; simp only [step, deadline, expire, here]
  | cancel m => cases own; simp only [step, expire, here]
  | drop m => cases own; simp only [step, drop, here]
  | directDialed m flaw => cases own; simp only [step, directDialed, here]
  | directWrite m count => cases own; simp only [step, directWrite, here]
  | directWriteFailed m flaw => cases own; simp only [step, directWriteFailed, here]
  | directRead m input => cases own; simp only [step, directRead, here]
  | _ => cases own

end Channel
end RpcClient.Multiplex
