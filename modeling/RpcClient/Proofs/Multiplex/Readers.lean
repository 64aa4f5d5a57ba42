import RpcClient.Proofs.Multiplex.Strides
import RpcClient.Proofs.Multiplex.Correlation

/-! What readers do to their connections, and with that what any step does to one call and to one
connection. -/
namespace RpcClient.Multiplex

/-- What the reader of connection `c` does to it. -/
inductive Reads (codec : Codec) (c : Nat) (conn : Connection) : Event → Connection → Prop where
  | receive {bytes : Bytes} : conn.reader = .reading →
      Reads codec c conn (.received c bytes)
        { conn with buffer := conn.buffer ++ bytes, reader := .decoding }
  | incomplete : conn.reader = .decoding → codec.decode conn.buffer = .incomplete →
      Reads codec c conn (.decode c) { conn with reader := .reading }
  | refuse {error : WireError} {buffer : Bytes} : conn.reader = .decoding →
      codec.decode conn.buffer = .failed error buffer →
      Reads codec c conn (.decode c) { conn with reader := .stopping .malformed, buffer }
  | take {frame : Frame} {buffer : Bytes} : conn.reader = .decoding →
      codec.decode conn.buffer = .frame frame buffer →
      Reads codec c conn (.decode c) { conn with buffer }
  | finish : conn.reader = .reading →
      Reads codec c conn (.ended c) { conn with reader := .stopping .remote }
  | stop {reason : CloseReason} : conn.reader = .stopping reason →
      Reads codec c conn (.readerStops c)
        { conn with
          closed := true
          reason := conn.reason <|> some reason
          writable := conn.writable && conn.holder.isSome
          reader := .stopped }
  /-- A call has closed the connection. -/
  | quit : conn.reader = .reading → conn.closed = true →
      Reads codec c conn (.readerStops c) { conn with reader := .stopped }

/-- What a step does to connection `c`. -/
inductive Fares (ch : Channel) (c : Nat) (conn : Connection) (event : Event) : Connection → Prop where
  | rest : Fares ch c conn event conn
  | reader {conn' : Connection} : Reads ch.codec c conn event conn' → Fares ch c conn event conn'
  | caller {n : Nat} {call : Call} {phase : Phase} {effect : Effect} : event.caller? = some n →
      ch.calls[n]? = some call → Stride ch n call event phase effect → effect.conn? = some c →
      Fares ch c conn event (effect.touch n conn)

namespace Channel

variable {ch ch' : Channel} {n c : Nat} {call : Call} {conn conn' : Connection} {event : Event}

theorem decoded?_eq_some {decoded : Decoded} :
    ch.decoded? c = some decoded ↔
      ∃ conn, ch.conns[c]? = some conn ∧ conn.reader = .decoding ∧
        ch.codec.decode conn.buffer = decoded := by
  simp only [decoded?, Option.bind_eq_some_iff, Option.ite_none_right_eq_some, Option.some.injEq]

theorem conns_deliver (ch : Channel) (frame : Frame) : (ch.deliver frame).conns = ch.conns := by
  simp only [deliver]
  split
  · rfl
  · rfl

theorem conns_start (ch : Channel) (request : Request) : (ch.start request).conns = ch.conns := by
  simp only [start]
  split
  · rfl
  · split
    · rfl
    · simp only [register]
      split
      · rfl
      · rfl

/-! ### What readers do -/

theorem fares_modify {f : Connection → Connection} {c' : Nat}
    (modified : ch'.conns = ch.conns.modify c f)
    (reads : ∀ conn, ch.conns[c]? = some conn →
      f conn = conn ∨ Reads ch.codec c conn event (f conn))
    (place : ch'.conns[c']? = some conn') :
    ∃ conn, ch.conns[c']? = some conn ∧ Fares ch c' conn event conn' := by
  rw [modified] at place
  obtain ⟨conn, before, rfl⟩ := exists_of_getElem?_modify place
  refine ⟨conn, before, ?_⟩
  split
  · next here =>
    subst here
    obtain same | reads := reads conn before
    · rw [same]
      exact .rest
    · exact .reader reads
  · exact .rest

theorem fares_received {bytes : Bytes} {c' : Nat} (place : (ch.received c bytes).conns[c']? = some conn') :
    ∃ conn, ch.conns[c']? = some conn ∧ Fares ch c' conn (.received c bytes) conn' := by
  refine fares_modify rfl (fun conn _ => ?_) place
  cases reader : conn.reader with
  | reading => exact .inr (.receive reader)
  | _ => exact .inl rfl

theorem fares_ended {c' : Nat} (place : (ch.ended c).conns[c']? = some conn') :
    ∃ conn, ch.conns[c']? = some conn ∧ Fares ch c' conn (.ended c) conn' := by
  refine fares_modify rfl (fun conn _ => ?_) place
  cases reader : conn.reader with
  | reading => exact .inr (.finish reader)
  | _ => exact .inl rfl

theorem fares_decode {c' : Nat} (place : (ch.decode c).conns[c']? = some conn') :
    ∃ conn, ch.conns[c']? = some conn ∧ Fares ch c' conn (.decode c) conn' := by
  cases taken : ch.decoded? c with
  | none =>
    simp only [decode, taken] at place
    exact ⟨conn', place, .rest⟩
  | some decoded =>
    obtain ⟨conn, front, decoding, result⟩ := decoded?_eq_some.mp taken
    have only : ∀ other, ch.conns[c]? = some other → other = conn :=
      fun other found => Option.some.inj (found.symm.trans front)
    cases decoded with
    | incomplete =>
      simp only [decode, taken] at place
      refine fares_modify rfl (fun other found => .inr ?_) place
      obtain rfl := only other found
      exact .incomplete decoding result
    | failed error buffer =>
      simp only [decode, taken] at place
      refine fares_modify rfl (fun other found => .inr ?_) place
      obtain rfl := only other found
      exact .refuse decoding result
    | frame frame buffer =>
      have conns : (ch.decode c).conns = ch.conns.modify c fun conn => { conn with buffer } := by
        simp only [decode, taken]
        split
        · exact conns_deliver _ frame
        · rfl
      refine fares_modify conns (fun other found => .inr ?_) place
      obtain rfl := only other found
      exact .take decoding result

theorem fares_readerStops {c' : Nat} (place : (ch.readerStops c).conns[c']? = some conn') :
    ∃ conn, ch.conns[c']? = some conn ∧ Fares ch c' conn (.readerStops c) conn' := by
  cases found : ch.conns[c]? with
  | none =>
    simp only [readerStops, found] at place
    exact ⟨conn', place, .rest⟩
  | some conn =>
    have only : ∀ other, ch.conns[c]? = some other → other = conn :=
      fun other found' => Option.some.inj (found'.symm.trans found)
    cases reader : conn.reader with
    | stopping reason =>
      have conns : (ch.readerStops c).conns = ch.conns.modify c fun conn =>
          { conn with
            closed := true
            reason := conn.reason <|> some reason
            writable := conn.writable && conn.holder.isSome
            reader := .stopped } := by
        simp only [readerStops, found, reader, close, modifyConn, List.modify_modify_eq]
        rfl
      refine fares_modify conns (fun other found' => .inr ?_) place
      obtain rfl := only other found'
      exact .stop reader
    | reading =>
      cases closed : conn.closed with
      | true =>
        simp only [readerStops, found, reader, closed, if_true] at place
        refine fares_modify rfl (fun other found' => .inr ?_) place
        obtain rfl := only other found'
        exact .quit reader closed
      | false =>
        simp only [readerStops, found, reader, closed, Bool.false_eq_true, if_false] at place
        exact ⟨conn', place, .rest⟩
    | _ =>
      simp only [readerStops, found, reader] at place
      exact ⟨conn', place, .rest⟩

/-- What any step does to a connection. -/
theorem step_fares (place : (ch.step event).conns[c]? = some conn') :
    (c = ch.conns.length ∧ conn' = .fresh) ∨
      ∃ conn, ch.conns[c]? = some conn ∧ Fares ch c conn event conn' := by
  cases own : event.caller? with
  | none =>
    cases event with
    | start request => exact .inr ⟨conn', conns_start ch request ▸ place, .rest⟩
    | received c' bytes => exact .inr (fares_received place)
    | decode c' => exact .inr (fares_decode place)
    | ended c' => exact .inr (fares_ended place)
    | readerStops c' => exact .inr (fares_readerStops place)
    | _ => cases own
  | some n =>
    cases found : ch.calls[n]? with
    | none =>
      rw [step_of_absent own found] at place
      exact .inr ⟨conn', place, .rest⟩
    | some call =>
      have goes := step_goes found own
      generalize ch.step event = next at goes place
      cases goes with
      | rest => exact .inr ⟨conn', place, .rest⟩
      | @stride phase effect _ stride took =>
        rw [took.conns] at place
        obtain ⟨_, last, fresh⟩ | ⟨conn, before, rfl⟩ := Effect.apply_cases place
        · exact .inl ⟨last, fresh⟩
        · refine .inr ⟨conn, before, ?_⟩
          split
          · next target => exact .caller own found stride target
          · exact .rest

theorem length_conns_le (ch : Channel) (event : Event) :
    ch.conns.length ≤ (ch.step event).conns.length := by
  have move := ch.step_move event
  generalize ch.step event = ch' at move
  cases move with
  | calm calm | clear _ calm => exact Nat.le_of_eq calm.length.symm
  | find | dial => exact Nat.le_refl _
  | connect => simp
  | hangUp here =>
    obtain ⟨pending, finished⟩ := finish_eq { ch with dialer := none } here _
    rw [finished]
    exact Nat.le_refl _
  | giveUp => exact Nat.le_of_eq (calm_close ch _ _).length.symm

/-- No connection goes away. -/
theorem exists_fares (event : Event) (before : ch.conns[c]? = some conn) :
    ∃ conn', (ch.step event).conns[c]? = some conn' ∧ Fares ch c conn event conn' := by
  have bound := (List.getElem?_eq_some_iff.mp before).1
  have after := List.getElem?_eq_getElem (Nat.lt_of_lt_of_le bound (ch.length_conns_le event))
  refine ⟨_, after, ?_⟩
  obtain ⟨last, _⟩ | ⟨other, before', fares⟩ := step_fares after
  · exact (Nat.ne_of_lt bound last).elim
  · obtain rfl := Option.some.inj (before.symm.trans before')
    exact fares

/-! ### What happens to one call -/

theorem calls_decode {m : Nat} (found : ch.calls[m]? = some call) :
    ∃ mailbox, (ch.decode c).calls[m]? = some { call with mailbox } := by
  have same : ∃ mailbox, ch.calls[m]? = some { call with mailbox } := ⟨call.mailbox, found⟩
  simp only [decode]
  split
  · exact same
  · exact same
  · exact same
  · split
    · simp only [deliver]
      split
      · exact same
      · next frame _ _ _ n _ =>
        simp only [modifyCall, List.getElem?_modify, unregister, modifyConn, found, Option.map_eq_map,
          Option.map_some]
        split
        · exact ⟨_, rfl⟩
        · exact ⟨_, rfl⟩
    · exact same

theorem calls_readerStops (ch : Channel) (c : Nat) : (ch.readerStops c).calls = ch.calls := by
  simp only [readerStops]
  split
  · split
    · rfl
    · split
      · rfl
      · rfl
    · rfl
  · rfl

/-- A call that has just started. -/
structure Started (codec : Codec) (request : Request) (call : Call) : Prop where
  mailbox : call.mailbox = .empty
  attempts : call.attempts = 4
  encoded : call.phase.isEnded = false →
    codec.encode { codec.toFrame request with requestId := call.requestId } = .ok call.wire
  refused : call.phase.isEnded = true →
    ∃ error, codec.encode { codec.toFrame request with requestId := call.requestId } = .error error
  phase : call.phase = .seeking ∨ (∃ address, call.phase = .direct address .dialing) ∨
    call.phase.isEnded = true

theorem getElem?_displaced {l : Ledger} {id : UInt64} {m : Nat} (found : l.calls[m]? = some call) :
    ∃ mailbox, (l.displaced id)[m]? = some { call with mailbox } := by
  rw [Ledger.displaced]
  split
  · exact ⟨call.mailbox, found⟩
  · rw [List.getElem?_modify, found]
    simp only [Option.map_eq_map, Option.map_some]
    split
    · exact ⟨_, rfl⟩
    · exact ⟨_, rfl⟩

/-- A call that starts comes behind the others, which keep all but what they were handed. -/
theorem calls_start (ch : Channel) (request : Request) :
    ∃ calls new, (ch.start request).calls = calls ++ [new] ∧ calls.length = ch.calls.length ∧
      (∀ {m : Nat} {call : Call}, ch.calls[m]? = some call → ∃ mailbox, calls[m]? = some { call with mailbox }) ∧
      Started ch.codec request new := by
  have kept : ∀ {m : Nat} {call : Call}, ch.calls[m]? = some call →
      ∃ mailbox, ch.calls[m]? = some { call with mailbox } := fun {m call} found => ⟨call.mailbox, found⟩
  have turn := ch.turn_start request
  rw [show (ch.start request).calls = (ch.start request).ledger.calls from rfl]
  generalize (ch.start request).ledger = l at turn
  cases turn with
  | refuse next refused =>
    exact ⟨_, _, rfl, rfl, kept, rfl, rfl, Bool.noConfusion, fun _ => ⟨_, refused⟩, .inr (.inr rfl)⟩
  | bypass next encoded direct =>
    exact ⟨_, _, rfl, rfl, kept, rfl, rfl, fun _ => encoded, Bool.noConfusion, .inr (.inl ⟨_, rfl⟩)⟩
  | register next encoded shared =>
    exact ⟨_, _, rfl, length_displaced _ _, fun found => getElem?_displaced (l := ch.ledger) found, rfl,
      rfl, fun _ => encoded, Bool.noConfusion, .inl rfl⟩

/-- What a step does to a call. -/
theorem step_call {m : Nat} (event : Event) (found : ch.calls[m]? = some call) :
    (∃ mailbox, (ch.step event).calls[m]? = some { call with mailbox }) ∨
      ∃ phase effect, event.caller? = some m ∧ Stride ch m call event phase effect ∧
        (ch.step event).calls[m]? = some { call with attempts := call.left phase, phase } := by
  cases own : event.caller? with
  | none =>
    refine .inl ?_
    cases event with
    | start request =>
      obtain ⟨calls, new, same, length, kept, _⟩ := ch.calls_start request
      obtain ⟨mailbox, here⟩ := kept found
      refine ⟨mailbox, ?_⟩
      rw [step, same, List.getElem?_append_left (List.getElem?_eq_some_iff.mp here).1]
      exact here
    | received c bytes => exact ⟨_, found⟩
    | decode c => exact calls_decode found
    | ended c => exact ⟨_, found⟩
    | readerStops c => exact ⟨_, (congrArg (·[m]?) (calls_readerStops ch c)).trans found⟩
    | _ => cases own
  | some n =>
    cases taker : ch.calls[n]? with
    | none =>
      rw [step_of_absent own taker]
      exact .inl ⟨_, found⟩
    | some other =>
      have goes := step_goes taker own
      generalize ch.step event = next at goes
      cases goes with
      | rest => exact .inl ⟨_, found⟩
      | @stride phase effect _ stride took =>
        rw [took.calls]
        split
        · next here =>
          subst here
          obtain rfl := Option.some.inj (found.symm.trans taker)
          exact .inr ⟨phase, effect, rfl, stride, rfl⟩
        · exact .inl ⟨_, found⟩

/-- A call that was not there has just started. -/
theorem step_started {m : Nat} (absent : ch.calls[m]? = none)
    (found : (ch.step event).calls[m]? = some call) :
    ∃ request, event = .start request ∧ Started ch.codec request call := by
  have beyond : ch.calls.length ≤ m := List.getElem?_eq_none_iff.mp absent
  have bound : m < (ch.step event).ledger.calls.length := (List.getElem?_eq_some_iff.mp found).1
  rw [(ch.step_turn event).length_eq] at bound
  cases event with
  | start request =>
    obtain ⟨calls, new, same, length, _, started⟩ := ch.calls_start request
    have last : m = ch.calls.length := Nat.le_antisymm (Nat.le_of_lt_succ bound) beyond
    rw [step, same, last, ← length, List.getElem?_concat_length] at found
    obtain rfl := Option.some.inj found
    exact ⟨request, rfl, started⟩
  | _ => exact (Nat.not_lt_of_le beyond bound).elim

/-- How a call comes out of a step. -/
inductive Comes (ch : Channel) (n : Nat) (event : Event) : Call → Prop where
  | started {request : Request} {call : Call} : ch.calls[n]? = none → event = .start request →
      Started ch.codec request call → Comes ch n event call
  | still {call : Call} {mailbox : Mailbox} : ch.calls[n]? = some call → Comes ch n event { call with mailbox }
  | stride {call : Call} {phase : Phase} {effect : Effect} : ch.calls[n]? = some call →
      Stride ch n call event phase effect → Comes ch n event { call with attempts := call.left phase, phase }

theorem step_comes (found : (ch.step event).calls[n]? = some call) : Comes ch n event call := by
  cases before : ch.calls[n]? with
  | none =>
    obtain ⟨request, starts, started⟩ := step_started before found
    exact .started before starts started
  | some old =>
    obtain ⟨mailbox, after⟩ | ⟨phase, effect, _, stride, after⟩ := step_call event before
    · obtain rfl := Option.some.inj (after.symm.trans found)
      exact .still before
    · obtain rfl := Option.some.inj (after.symm.trans found)
      exact .stride before stride

/-- A call that has ended stays as it is. -/
theorem step_of_ended {phase : Phase} (here : ch.phase? n = some phase) (ended : phase.isEnded = true) :
    (ch.step event).phase? n = some phase := by
  obtain ⟨call, found, rfl⟩ := phase?_eq_some.mp here
  obtain ⟨mailbox, after⟩ | ⟨phase, effect, _, stride, _⟩ := step_call event found
  · exact phase?_eq_some.mpr ⟨_, after, rfl⟩
  · rw [stride.live] at ended
    cases ended

theorem run_of_ended {phase : Phase} (events : List Event) (here : ch.phase? n = some phase)
    (ended : phase.isEnded = true) : (ch.run events).phase? n = some phase :=
  List.foldlRecOn (motive := fun ch => ch.phase? n = some phase) events step here
    fun _ here _ _ => step_of_ended here ended

/-- Readers and calls that start leave the phases of the others as they are. -/
theorem phase?_of_reader {m : Nat} {phase : Phase} (reader : event.caller? = none)
    (here : ch.phase? m = some phase) : (ch.step event).phase? m = some phase := by
  obtain ⟨call, found, rfl⟩ := phase?_eq_some.mp here
  obtain ⟨mailbox, after⟩ | ⟨_, _, own, _⟩ := step_call event found
  · exact phase?_eq_some.mpr ⟨_, after, rfl⟩
  · rw [reader] at own
    cases own

end Channel
end RpcClient.Multiplex
