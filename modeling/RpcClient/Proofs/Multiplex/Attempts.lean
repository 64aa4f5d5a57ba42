import RpcClient.Proofs.Multiplex.Sent

/-! How often calls try to write their frames. A call tries again only behind an attempt that left its frame
cut short on a connection that is closed. So no frame is written twice, whatever closes the connections, and
no call goes on after its time was over or after it could not connect. -/
namespace RpcClient

/-- How an attempt fails behind which a call may try again. -/
def Failure.IsCut (failure : Failure) : Prop :=
  failure = .connectionClosed ∨ ∃ flaw, failure = .unavailable (.write flaw)

namespace Multiplex

namespace Phase

def isSeeking : Phase → Bool
  | .seeking => true
  | _ => false

/-- Whether an attempt of the call is under way. -/
def isTrying : Phase → Bool
  | .seeking | .dialing | .entering _ | .queued _ | .writing _ _ => true
  | _ => false

/-- Whether the call is over, or its time was over while it wrote. -/
def isOver : Phase → Bool
  | .expired _ | .done _ | .dropped => true
  | _ => false

/-- Why the frame of the call was not written. -/
def failure? : Phase → Option Failure
  | .failed _ failure | .clearing _ failure => some failure
  | _ => none

end Phase

variable {ch : Channel} {n c : Nat} {call : Call} {event : Event} {phase : Phase} {effect : Effect}

/-! ### Strides of calls that try again, and of calls that do not -/

theorem Stride.seeking (stride : Stride ch n call event .seeking effect) :
    ∃ c failure, call.phase = .clearing c failure ∧ 1 < call.attempts := by
  cases stride with
  | again clears _ more => exact ⟨_, _, clears, more⟩
  | direct solo => obtain direct | ends := solo.stays <;> contradiction

theorem Stride.failure {failure : Failure} (stride : Stride ch n call event phase effect)
    (fails : phase.failure? = some failure) : failure.IsCut ∨ call.phase.failure? = some failure := by
  cases stride with
  | miss | abort =>
    cases fails
    exact .inl (.inl rfl)
  | writeFailed =>
    cases fails
    exact .inl (.inr ⟨_, rfl⟩)
  | shut failed =>
    cases fails
    exact .inr (by rw [failed]; rfl)
  | direct solo =>
    cases phase with
    | failed | clearing => obtain direct | ends := solo.stays <;> contradiction
    | _ => cases fails
  | _ => cases fails

/-- A call that is out of time does not go on. -/
theorem Stride.isOver (stride : Stride ch n call event phase effect) (past : call.phase.isOver = true) :
    phase.isOver = true := by
  cases stride with
  | refused | expire | tear | exhausted | answered | displaced | cut | timeout | leave | drop | dropQueued
  | dropWriter => rfl
  | miss _ _ place => obtain ⟨here, _⟩ | ⟨here, _⟩ := place <;> rw [here] at past <;> cases past
  | direct solo =>
    obtain ⟨_, _, here⟩ := solo.exists_stage
    rw [here] at past
    cases past
  | find here | dial here | connect here | take here | queue here | begin here | writeSome here
  | writeAll here | writeFailed here | abort here | shut here | again here =>
    rw [here] at past
    cases past

/-- A call whose time is over in an attempt ends, at once or behind the connection that it closes. -/
theorem Stride.expiry (stride : Stride ch n call event phase effect) (trying : call.phase.isTrying = true)
    (own : event.IsExpiry n) : phase = .done (.error .timeout) ∨ ∃ c, phase = .expired c := by
  cases stride with
  | expire => exact .inr ⟨_, rfl⟩
  | timeout | leave => exact .inl rfl
  | again here | exhausted here | answered here | displaced here =>
    rw [here] at trying
    cases trying
  | direct solo =>
    obtain ⟨_, _, here⟩ := solo.exists_stage
    rw [here] at trying
    cases trying
  | _ => obtain other | other := own <;> cases other

namespace Channel

/-- Whether call `n` starts an attempt by a step. -/
def setsOut (ch : Channel) (n : Nat) (event : Event) : Bool :=
  !(ch.phase? n).any Phase.isSeeking && ((ch.step event).phase? n).any Phase.isSeeking

/-- How many attempts call `n` starts in a run. -/
def tries (ch : Channel) (events : List Event) (n : Nat) : Nat :=
  (ch.trace events).countP fun (ch, event) => ch.setsOut n event

theorem tries_concat (ch : Channel) (events : List Event) (event : Event) (n : Nat) :
    ch.tries (events ++ [event]) n =
      ch.tries events n + if (ch.run events).setsOut n event then 1 else 0 := by
  rw [tries, trace_append, List.countP_append]
  exact congrArg (ch.tries events n + ·) List.countP_singleton

variable {codec : Codec} {events : List Event}

theorem setsOut_eq_true : ch.setsOut n event = true ↔
    ch.phase? n ≠ some .seeking ∧ (ch.step event).phase? n = some .seeking := by
  have seeks : ∀ phase : Option Phase, phase.any Phase.isSeeking = true ↔ phase = some .seeking := by
    rintro (_ | phase)
    · simp
    · cases phase <;> simp [Phase.isSeeking]
  rw [setsOut, Bool.and_eq_true, Bool.not_eq_true', ← Bool.not_eq_true, seeks, seeks]

theorem setsOut_of_absent (absent : (ch.step event).calls[n]? = none) : ch.setsOut n event = false := by
  refine Bool.eq_false_iff.mpr fun sets => ?_
  have seeks := (setsOut_eq_true.mp sets).2
  rw [phase?, absent] at seeks
  cases seeks

theorem tries_of_absent (absent : ((new codec).run events).calls[n]? = none) :
    (new codec).tries events n = 0 := by
  induction events using List.reverseRecOn with
  | nil => rfl
  | append_singleton events event ih =>
    rw [tries_concat, ih (calls_of_concat absent), setsOut_of_absent (run_concat _ _ _ ▸ absent)]
    rfl

/-- The attempts that a call has made and those that it has left are never more than it may make. -/
theorem tries_run (found : ((new codec).run events).calls[n]? = some call) :
    (new codec).tries events n + call.attempts ≤ 5 ∧ 1 ≤ call.attempts := by
  induction events using List.reverseRecOn generalizing call with
  | nil => cases found
  | append_singleton events event ih =>
    rw [tries_concat]
    rw [run_concat] at found
    cases step_comes found with
    | started absent _ started =>
      rw [tries_of_absent absent, started.attempts]
      split <;> decide
    | @still old mailbox before =>
      obtain ⟨few, more⟩ := ih before
      rw [if_neg]
      · exact ⟨few, more⟩
      intro sets
      obtain ⟨other, seeks⟩ := setsOut_eq_true.mp sets
      rw [phase?, found] at seeks
      rw [phase?, before] at other
      exact other seeks
    | @stride old phase effect before stride =>
      obtain ⟨few, more⟩ := ih before
      -- only the stride back to the search counts, and it takes one of the attempts left
      cases phase with
      | seeking =>
        obtain ⟨_, _, _, left⟩ := stride.seeking
        simp only [Call.left]
        split <;> omega
      | _ =>
        rw [if_neg]
        · exact ⟨few, more⟩
        intro sets
        have seeks := (setsOut_eq_true.mp sets).2
        rw [phase?, found] at seeks
        cases seeks

theorem failure_run {failure : Failure} (here : ((new codec).run events).phase? n = some phase)
    (fails : phase.failure? = some failure) : failure.IsCut := by
  refine List.foldlRecOn (motive := fun ch => ∀ {n phase failure}, ch.phase? n = some phase →
    phase.failure? = some failure → failure.IsCut) events step ?_ ?_ here fails
  · intro n phase failure here
    cases here
  intro ch cut event _ n phase failure here fails
  obtain ⟨call, found, rfl⟩ := phase?_eq_some.mp here
  cases step_comes found with
  | started _ _ started =>
    obtain seeks | ⟨_, dials⟩ | ends := started.phase
    · rw [seeks] at fails
      cases fails
    · rw [dials] at fails
      cases fails
    · cases place : call.phase <;> rw [place] at fails ends <;> contradiction
  | still before => exact cut (phase?_eq_some.mpr ⟨_, before, rfl⟩) fails
  | stride before stride =>
    exact (stride.failure fails).elim id (cut (phase?_eq_some.mpr ⟨_, before, rfl⟩))

/-- A call tries again only when it has closed the connection that it could not write on. -/
theorem clearing_of_retry (here : ch.phase? n = some phase) (other : phase ≠ .seeking)
    (again : (ch.step event).phase? n = some .seeking) : ∃ c failure, phase = .clearing c failure := by
  obtain ⟨call, found, rfl⟩ := phase?_eq_some.mp here
  obtain ⟨mailbox, after⟩ | ⟨phase, effect, _, stride, after⟩ := step_call event found
  · rw [phase?, after] at again
    exact (other (Option.some.inj again)).elim
  · rw [phase?, after] at again
    obtain rfl : phase = .seeking := Option.some.inj again
    obtain ⟨c, failure, clears, _⟩ := stride.seeking
    exact ⟨c, failure, clears⟩

theorem isOver_step (here : ch.phase? n = some phase) (past : phase.isOver = true) (event : Event) :
    ∃ phase', (ch.step event).phase? n = some phase' ∧ phase'.isOver = true := by
  obtain ⟨call, found, rfl⟩ := phase?_eq_some.mp here
  obtain ⟨mailbox, after⟩ | ⟨phase, effect, _, stride, after⟩ := step_call event found
  · exact ⟨_, phase?_eq_some.mpr ⟨_, after, rfl⟩, past⟩
  · exact ⟨phase, phase?_eq_some.mpr ⟨_, after, rfl⟩, stride.isOver past⟩

/-- A call that is over makes no attempt any more. -/
theorem isOver_run (later : List Event) (here : ((new codec).run events).phase? n = some phase)
    (past : phase.isOver = true) :
    (∃ phase', ((new codec).run (events ++ later)).phase? n = some phase' ∧ phase'.isOver = true) ∧
      (new codec).tries (events ++ later) n = (new codec).tries events n := by
  induction later using List.reverseRecOn with
  | nil =>
    rw [List.append_nil]
    exact ⟨⟨phase, here, past⟩, rfl⟩
  | append_singleton later event ih =>
    obtain ⟨⟨phase', now, still⟩, same⟩ := ih
    obtain ⟨phase'', next, rests⟩ := isOver_step now still event
    rw [← List.append_assoc, run_concat, tries_concat, same, if_neg]
    · exact ⟨⟨phase'', next, rests⟩, rfl⟩
    intro sets
    rw [Option.some.inj (next.symm.trans (setsOut_eq_true.mp sets).2)] at rests
    cases rests

theorem codec_run (codec : Codec) (events : List Event) : ((new codec).run events).codec = codec :=
  List.foldlRecOn (motive := fun ch => ch.codec = codec) events step rfl fun ch same event _ =>
    (ch.step_turn event).codec_eq.trans same

theorem length_calls_run (codec : Codec) (events : List Event) :
    ((new codec).run events).calls.length = (events.filterMap Event.request?).length := by
  induction events using List.reverseRecOn with
  | nil => rfl
  | append_singleton events event ih =>
    have length : (((new codec).run events).step event).calls.length = _ :=
      (((new codec).run events).step_turn event).length_eq
    rw [run_concat, length, List.filterMap_append, List.length_append, ← ih]
    cases event <;> rfl

/-- A call writes the frame of its request under its number, if there is one. -/
theorem encode_run {request : Request} (asked : (events.filterMap Event.request?)[n]? = some request)
    (found : ((new codec).run events).calls[n]? = some call) :
    codec.encode { codec.toFrame request with requestId := call.requestId } = .ok call.wire ∨
      ∃ error, codec.encode { codec.toFrame request with requestId := call.requestId } = .error error := by
  induction events using List.reverseRecOn generalizing call with
  | nil => cases found
  | append_singleton events event ih =>
    rw [run_concat] at found
    rw [List.filterMap_append, List.getElem?_append, ← length_calls_run codec events] at asked
    cases step_comes found with
    | @started request' _ absent starts started =>
      rw [if_neg (Nat.not_lt_of_le (List.getElem?_eq_none_iff.mp absent)), starts] at asked
      obtain rfl : request = request' := List.mem_singleton.mp (List.mem_of_getElem? asked)
      rw [codec_run] at started
      cases live : call.phase.isEnded with
      | false => exact .inl (started.encoded live)
      | true => exact .inr (started.refused live)
    | still before | stride before =>
      rw [if_pos (List.getElem?_eq_some_iff.mp before).1] at asked
      have origin := ih asked before
      exact origin

end Channel

theorem Phase.conn?_of_attempt? {wire rest : Bytes} (current : phase.attempt? wire = some (.shared c, rest)) :
    phase.conn? = some c := by
  cases phase with
  | direct address stage => cases stage <;> cases current
  | _ => cases current <;> rfl

/-- How calls get their frames to a connection in a run. -/
structure Frugal (codec : Codec) (events : List Event) : Prop where
  /-- What a call has to write is the frame of its request under its number. -/
  frame : ∀ {n : Nat} {request call wire}, (events.filterMap Event.request?)[n]? = some request →
    ((Channel.new codec).run events).calls[n]? = some call →
    codec.encode { codec.toFrame request with requestId := call.requestId } = .ok wire →
    call.wire = wire ∧ wire ≠ []
  /-- It writes no more than a front of it on any connection. -/
  front : ∀ {n call}, ((Channel.new codec).run events).calls[n]? = some call → ∀ route,
    (Channel.new codec).sent events n route <+: call.wire
  /-- At most one connection gets all of it. -/
  once : ∀ {n call}, ((Channel.new codec).run events).calls[n]? = some call → call.wire ≠ [] →
    ∀ {route route'}, (Channel.new codec).sent events n route = call.wire →
      (Channel.new codec).sent events n route' = call.wire → route = route'
  whole : ∀ {n c call}, ((Channel.new codec).run events).calls[n]? = some call → call.phase = .waiting c →
    (Channel.new codec).sent events n (.shared c) = call.wire
  /-- A call that goes on without the connection has left it closed, with its frame cut short. -/
  left : ∀ {before later n c call}, events = before ++ later →
    ((Channel.new codec).run before).conn? n = some c →
    ((Channel.new codec).run events).calls[n]? = some call → call.phase.isEnded = false →
    call.phase.conn? ≠ some c → ((Channel.new codec).run events).isClosed c = true ∧
      CutShort call.wire ((Channel.new codec).sent events n (.shared c))
  attempts : ∀ n, (Channel.new codec).tries events n ≤ 4
  /-- What is behind a further attempt. -/
  retried : ∀ {n call event}, ((Channel.new codec).run events).calls[n]? = some call →
    call.phase ≠ .seeking → (((Channel.new codec).run events).step event).phase? n = some .seeking →
    ∃ c failure, call.phase = .clearing c failure ∧ failure.IsCut ∧
      ((Channel.new codec).run events).isClosed c = true ∧
      CutShort call.wire ((Channel.new codec).sent events n (.shared c))
  timedOut : ∀ {n phase event}, ((Channel.new codec).run events).phase? n = some phase →
    phase.isTrying = true → event.IsExpiry n →
    ∃ phase', (((Channel.new codec).run events).step event).phase? n = some phase' ∧
      (phase' = phase ∨ phase' = .done (.error .timeout) ∨ ∃ c, phase' = .expired c)
  refused : ∀ {n}, ((Channel.new codec).run events).phase? n = some .dialing → ∀ failure,
    (((Channel.new codec).run events).step (.dialed n (some failure))).phase? n =
      some (.done (.error failure))
  /-- A call that is over makes no further attempt. -/
  finished : ∀ {before later n phase}, events = before ++ later →
    ((Channel.new codec).run before).phase? n = some phase → phase.isOver = true →
    (∃ phase', ((Channel.new codec).run events).phase? n = some phase' ∧ phase'.isOver = true) ∧
      (Channel.new codec).tries events n = (Channel.new codec).tries before n

/-- In every run, no frame is written twice. -/
theorem frugal_run (codec : Codec) (events : List Event) : Frugal codec events where
  frame := by
    intro n request call wire asked found encoded
    obtain same | ⟨error, refused⟩ := Channel.encode_run asked found
    · rw [encoded] at same
      exact ⟨(Except.ok.inj same).symm, Codec.ne_nil_of_encode encoded⟩
    · cases encoded.symm.trans refused
  front found := (Channel.progress_run found).front
  once found := (Channel.progress_run found).once
  whole := by
    intro n c call found waits
    have current : call.phase.attempt? call.wire = some (.shared c, []) := by rw [waits]; rfl
    have whole := (Channel.progress_run found).attempt current
    rwa [List.append_nil] at whole
  left := by
    rintro before later n c call rfl used found live away
    have here := Channel.phase?_eq_some.mpr ⟨call, found, rfl⟩
    constructor
    · obtain stays | ⟨phase, ends, ended⟩ | ⟨conn, present, closed⟩ := Channel.keepsTo_run later used
      · rw [Channel.conn?, here] at stays
        exact (away stays).elim
      · rw [Option.some.inj (here.symm.trans ends)] at live
        cases live.symm.trans ended
      · rw [Channel.isClosed, present]
        exact closed
    · exact (Channel.progress_run found).cut live fun rest current => away (Phase.conn?_of_attempt? current)
  attempts := by
    intro n
    cases found : ((Channel.new codec).run events).calls[n]? with
    | none =>
      rw [Channel.tries_of_absent found]
      exact Nat.zero_le 4
    | some call =>
      have bounds := Channel.tries_run found
      omega
  retried := by
    intro n call event found other again
    have here := Channel.phase?_eq_some.mpr ⟨call, found, rfl⟩
    obtain ⟨c, failure, clears⟩ := Channel.clearing_of_retry here other again
    rw [clears] at here
    refine ⟨c, failure, clears, Channel.failure_run here rfl, (OneLine.run codec events).cleared here, ?_⟩
    refine (Channel.progress_run found).cut (by rw [clears]; rfl) fun rest current => ?_
    rw [clears] at current
    cases current
  timedOut := by
    intro n phase event here trying own
    obtain ⟨call, found, rfl⟩ := Channel.phase?_eq_some.mp here
    obtain ⟨mailbox, after⟩ | ⟨phase, effect, _, stride, after⟩ := Channel.step_call event found
    · exact ⟨_, Channel.phase?_eq_some.mpr ⟨_, after, rfl⟩, .inl rfl⟩
    · exact ⟨phase, Channel.phase?_eq_some.mpr ⟨_, after, rfl⟩, .inr (stride.expiry trying own)⟩
  refused := by
    intro n dials failure
    have free : ({ (Channel.new codec).run events with dialer := none } : Channel).phase? n =
      some .dialing := dials
    simp only [Channel.step, Channel.dialed, dials]
    exact Channel.phase?_finish free _
  finished := by
    rintro before later n phase rfl here past
    exact Channel.isOver_run later here past

/-- A connection breaks behind five bytes, and the call writes its frame on another one. -/
example :
    let events : List Event :=
      [.start {}, .seek 0, .dialed 0 none, .enter 0, .write 0 5, .writeFailed 0 .brokenPipe, .giveUp 0,
        .clear 0, .seek 0, .dialed 0 none, .enter 0, .write 0 9, .write 0 64]
    let ch := Channel.new (.bolt .v1 "")
    (ch.sent events 0 (.shared 0)).length = 5 ∧ ch.tries events 0 = 2 ∧
      some (ch.sent events 0 (.shared 1)) = (ch.run events).calls[0]?.map Call.wire := ⟨rfl, rfl, rfl⟩

end Multiplex
end RpcClient
