import RpcClient.Proofs.Bolt.RoundTrip
import RpcClient.Proofs.Dubbo.RoundTrip
import RpcClient.Proofs.Multiplex.Closing
import RpcClient.Proofs.Multiplex.Lines

/-! What is behind the closing of a connection: the reader has stopped, bytes could not be written, or the
time of a call was over in the middle of its frame. -/
namespace RpcClient

theorem Codec.ne_nil_of_encode {codec : Codec} {frame : Frame} {wire : Bytes}
    (encoded : codec.encode frame = .ok wire) : wire ≠ [] := by
  rintro rfl
  cases codec with
  | bolt version className =>
    obtain ⟨_, empty⟩ := Bolt.encode_eq_ok_iff.mp encoded
    have length := congrArg List.length empty
    rw [Bolt.Packet.length_bytes_ofFrame, List.length_nil, Bolt.wireSize] at length
    have fixed : 0 < version.fixedSize frame.isResponse := by
      cases version <;> cases frame.isResponse <;> decide
    omega
  | dubbo =>
    obtain ⟨_, empty⟩ := Dubbo.encode_eq_ok_iff.mp encoded
    have length := congrArg List.length empty
    rw [List.length_append, Dubbo.length_row_fields, List.length_nil, Dubbo.headerSize] at length
    omega

namespace Multiplex

/-- A call under way has a frame to write, and while it writes an end of it is left. -/
structure Call.Whole (call : Call) : Prop where
  wire : call.phase.isEnded = false → call.wire ≠ []
  rest : ∀ {c rest}, call.phase = .writing c rest → rest ≠ [] ∧ rest <:+ call.wire

variable {ch : Channel} {n c : Nat} {call : Call} {conn conn' : Connection} {event : Event} {phase : Phase}
  {effect : Effect}

theorem Stride.rest {rest : Bytes} (stride : Stride ch n call event (.writing c rest) effect) :
    rest = call.wire ∨
      ∃ more count, call.phase = .writing c more ∧ count < more.length ∧ rest = more.drop count := by
  cases stride with
  | take | begin => exact .inl rfl
  | writeSome here less => exact .inr ⟨_, _, here, less, rfl⟩
  | direct solo => obtain direct | ends := solo.stays <;> contradiction

theorem Call.Whole.stride (whole : call.Whole) (attempts : Nat)
    (stride : Stride ch n call event phase effect) : Call.Whole { call with attempts, phase } := by
  have wire := whole.wire stride.live
  refine ⟨fun _ => wire, ?_⟩
  rintro c rest rfl
  obtain rfl | ⟨more, count, here, less, rfl⟩ := stride.rest
  · exact ⟨wire, List.suffix_refl _⟩
  · refine ⟨?_, (List.drop_suffix count more).trans (whole.rest here).2⟩
    rw [Ne, List.drop_eq_nil_iff]
    omega

namespace Channel

theorem Started.whole {codec : Codec} {request : Request} (started : Started codec request call) :
    call.Whole := by
  refine ⟨fun live => Codec.ne_nil_of_encode (started.encoded live), fun {c rest} writing => ?_⟩
  have places := started.phase
  rw [writing] at places
  obtain seeks | ⟨_, direct⟩ | ends := places <;> contradiction

theorem whole_run (codec : Codec) (events : List Event) {n : Nat} {call : Call}
    (found : ((new codec).run events).calls[n]? = some call) : call.Whole := by
  refine List.foldlRecOn (motive := fun ch => ∀ {n : Nat} {call : Call}, ch.calls[n]? = some call →
    call.Whole) events step ?_ ?_ found
  · intro n call found
    cases found
  intro ch whole event _ n call found
  cases step_comes found with
  | started _ _ started => exact started.whole
  | still before => exact ⟨(whole before).wire, (whole before).rest⟩
  | stride before stride => exact (whole before).stride _ stride

/-- A connection is opened with its writing side, which is dropped only once the connection is closed. -/
theorem closed_of_unwritable (codec : Codec) (events : List Event) {c : Nat} {conn : Connection}
    (found : ((new codec).run events).conns[c]? = some conn) (broken : conn.writable = false) :
    conn.closed = true := by
  refine List.foldlRecOn (motive := fun ch => ∀ {c : Nat} {conn : Connection}, ch.conns[c]? = some conn →
    conn.writable = false → conn.closed = true) events step ?_ ?_ found broken
  · intro c conn found
    cases found
  intro ch known event _ c conn' after broken
  obtain ⟨_, rfl⟩ | ⟨conn, before, fares⟩ := step_fares after
  · cases broken
  have known := known before
  cases fares with
  | rest => exact known broken
  | reader reads =>
    cases reads with
    | stop => rfl
    | _ => exact known broken
  | @caller n call phase effect =>
    cases effect with
    | close => rfl
    | release c' drops =>
      cases writable : conn.writable with
      | false => exact known writable
      | true =>
        simp only [Effect.touch, writable, Bool.true_and, Bool.not_eq_false', Bool.and_eq_true] at broken
        exact broken.2
    | _ => exact known broken

/-- A call gets to a phase that is none to start with by a stride. -/
theorem exists_stride (before : ch.phase? n ≠ some phase) (after : (ch.step event).phase? n = some phase)
    (later : phase ≠ .seeking) (live : phase.isEnded = false) (shared : phase.isDirect = false) :
    ∃ call effect, ch.calls[n]? = some call ∧ Stride ch n call event phase effect := by
  obtain ⟨call, found, rfl⟩ := phase?_eq_some.mp after
  cases step_comes found with
  | started _ _ started =>
    obtain seeks | ⟨_, direct⟩ | ends := started.phase
    · exact (later seeks).elim
    · rw [direct] at shared
      cases shared
    · exact (Bool.false_ne_true (live.symm.trans ends)).elim
  | still here => exact (before (phase?_eq_some.mpr ⟨_, here, rfl⟩)).elim
  | stride here stride => exact ⟨_, _, here, stride⟩

/-- Only the deadline of a call takes it away from a frame that is not written. -/
theorem expired_run {codec : Codec} {events : List Event}
    (here : ((new codec).run events).phase? n = some (.expired c)) :
    ∃ before after call rest, events = before ++ .deadline n :: after ∧
      ((new codec).run before).calls[n]? = some call ∧ call.phase = .writing c rest := by
  obtain ⟨before, event, after, rfl, earlier, turning⟩ :=
    exists_turning (P := fun ch => ch.phase? n = some (.expired c))
      (fun now => (Option.some_ne_none _ now.symm).elim) here
  obtain ⟨call, effect, found, stride⟩ := exists_stride earlier turning Phase.noConfusion rfl rfl
  cases stride with
  | expire writing => exact ⟨before, after, call, _, rfl, found, writing⟩
  | direct solo => obtain direct | ends := solo.stays <;> contradiction

/-- A call fails to write because of the connection, unless it is closed already. -/
theorem failed_run {codec : Codec} {events : List Event} {failure : Failure}
    (here : ((new codec).run events).phase? n = some (.failed c failure)) :
    ∃ before event after, events = before ++ event :: after ∧
      ((∃ conn, ((new codec).run before).conns[c]? = some conn ∧ conn.closed = true) ∨
        ∃ flaw rest, event = .writeFailed n flaw ∧
          ((new codec).run before).phase? n = some (.writing c rest)) := by
  obtain ⟨before, event, after, rfl, earlier, turning⟩ :=
    exists_turning (P := fun ch => ch.phase? n = some (.failed c failure))
      (fun now => (Option.some_ne_none _ now.symm).elim) here
  obtain ⟨call, effect, found, stride⟩ := exists_stride earlier turning Phase.noConfusion rfl rfl
  refine ⟨before, event, after, rfl, ?_⟩
  cases stride with
  | miss present broken => exact .inl ⟨_, present, closed_of_unwritable codec before present broken⟩
  | writeFailed writing => exact .inr ⟨_, _, rfl, phase?_eq_some.mpr ⟨call, found, writing⟩⟩
  | abort writing closed =>
    have held := (Lines.run codec before).writing (phase?_eq_some.mpr ⟨call, found, writing⟩)
    obtain ⟨conn, present, _⟩ := Option.bind_eq_some_iff.mp held
    rw [isClosed, present] at closed
    exact .inl ⟨conn, present, closed⟩
  | direct solo => obtain direct | ends := solo.stays <;> contradiction

end Channel

namespace History

/-- What is behind the step that closes connection `c`. -/
inductive Cause (codec : Codec) (events : List Event) (c : Nat) : Event → Prop where
  | reader {conn : Connection} {reason : CloseReason} : (ofRun codec events).channel.conns[c]? = some conn →
      conn.reader = .stopping reason → Cause codec events c (.readerStops c)
  /-- The connection did not take the bytes of a call. -/
  | refused {n : Nat} {before after : List Event} {flaw : TransportFlaw} {rest : Bytes} :
      events = before ++ .writeFailed n flaw :: after →
      (ofRun codec before).channel.phase? n = some (.writing c rest) → Cause codec events c (.giveUp n)
  /-- The deadline of a call passed when it had the writer and an end of its frame left to write. -/
  | deadline {n : Nat} {before after : List Event} {call : Call} {rest : Bytes} :
      events = before ++ .deadline n :: after → (ofRun codec before).channel.calls[n]? = some call →
      call.phase = .writing c rest → rest ≠ [] → rest <:+ call.wire →
      (ofRun codec before).channel.holder? c = some n → Cause codec events c (.giveUp n)

theorem exists_cause {codec : Codec} {events : List Event}
    (live : (ofRun codec events).channel.isClosed c = false)
    (closed : (ofRun codec (events ++ [event])).channel.isClosed c = true) : Cause codec events c event := by
  rw [ofRun_concat, step] at closed
  obtain ⟨conn, reason, closes, _⟩ := Channel.exists_closes closed_eq_ofRun live closed
  cases closes with
  | reader found stopping => exact .reader found stopping
  | expired here =>
    rw [channel_ofRun] at here
    obtain ⟨before, after, call, rest, rfl, found, writing⟩ := Channel.expired_run here
    obtain ⟨left, suffix⟩ := (Channel.whole_run codec before found).rest writing
    have held := (Lines.run codec before).writing (Channel.phase?_eq_some.mpr ⟨call, found, writing⟩)
    rw [← channel_ofRun] at found held
    exact .deadline rfl found writing left suffix held
  | failed here =>
    rw [channel_ofRun] at here
    obtain ⟨before, origin, after, rfl, ⟨conn, found, gone⟩ | ⟨flaw, rest, rfl, writing⟩⟩ :=
      Channel.failed_run here
    · obtain ⟨conn', found', gone'⟩ := Channel.closed_run (origin :: after) found gone
      rw [← channel_ofRun, ← channel_ofRun_append] at found'
      rw [Channel.isClosed, found'] at live
      exact (Bool.false_ne_true (live.symm.trans gone')).elim
    · rw [← channel_ofRun] at writing
      exact .refused rfl writing

end History
end Multiplex
end RpcClient
