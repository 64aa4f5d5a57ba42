import RpcClient.Proofs.Multiplex.Closing
import RpcClient.Proofs.Multiplex.Reuse

/-! What becomes of the calls that wait on a connection when it is closed. Readers, calls that fail to
write and calls that run out of time close connections in any order, and a call looks for its response
when it likes. All that counts is what it was handed by then, and which reason was recorded first. -/
namespace RpcClient

theorem Codec.exists_ofFrame (codec : Codec) {frame : Frame} (response : frame.isResponse = true) :
    ∃ answer, codec.ofFrame frame = .ok answer := by
  cases codec with
  | bolt version className =>
    rw [ofFrame, Bolt.ofFrame, if_pos response]
    exact ⟨_, rfl⟩
  | dubbo =>
    rw [ofFrame, Dubbo.ofFrame, if_pos response]
    split
    · exact ⟨_, rfl⟩
    · exact ⟨_, rfl⟩

namespace Multiplex

/-- What the callers are told whose connection was closed. -/
def CloseReason.failure : CloseReason → Failure
  | .malformed => .timeout
  | .remote | .broken => .connectionClosed

/-- Whether call `n` stops waiting by the step: it looks for its response, its time is over, or it is
dropped. -/
def Event.EndsWait (event : Event) (n : Nat) : Prop :=
  event = .resume n ∨ event.IsExpiry n ∨ event = .drop n

/-- What becomes of call `n`, which waits on a connection that was closed for `reason`, when it stops
waiting, given what calls were handed until then. -/
inductive Verdict (codec : Codec) (reason : CloseReason) (n : Nat) (handed : List (Nat × Frame)) :
    Event → Phase → Prop where
  | answered {event : Event} {frame : Frame} {response : Response} : (n, frame) ∈ handed →
      codec.ofFrame frame = .ok response → event = .resume n ∨ event.IsExpiry n →
      Verdict codec reason n handed event (.done (.ok response))
  | stranded : (∀ frame, (n, frame) ∉ handed) →
      Verdict codec reason n handed (.resume n) (.done (.error reason.failure))
  /-- Its time was over before it looked; it hears of the connection only if another call was given its
  number. -/
  | late {event : Event} {failure : Failure} : (∀ frame, (n, frame) ∉ handed) → event.IsExpiry n →
      failure = .timeout ∨ failure = reason.failure →
      Verdict codec reason n handed event (.done (.error failure))
  | dropped : Verdict codec reason n handed (.drop n) .dropped

theorem Verdict.isEnded {codec : Codec} {reason : CloseReason} {n : Nat} {handed : List (Nat × Frame)}
    {event : Event} {phase : Phase} (verdict : Verdict codec reason n handed event phase) :
    phase.isEnded = true := by
  cases verdict <;> rfl

variable {ch : Channel} {n c : Nat} {call : Call} {event : Event} {phase : Phase} {effect : Effect}

theorem Stride.endsWait (stride : Stride ch n call event phase effect) (here : call.phase = .waiting c) :
    event.EndsWait n := by
  cases stride with
  | answered _ _ own | displaced _ _ own => exact own.elim .inl fun own => .inr (.inl own)
  | cut => exact .inl rfl
  | timeout _ own => exact .inr (.inl own)
  | drop => exact .inr (.inr rfl)
  | miss _ _ place =>
    rw [here] at place
    obtain ⟨here, _⟩ | ⟨here, _⟩ := place <;> cases here
  | dropWriter place =>
    rw [here] at place
    obtain ⟨here, _⟩ | ⟨_, here⟩ := place <;> cases here
  | direct solo =>
    have direct := solo.isDirect
    rw [here] at direct
    cases direct
  | find other | dial other | connect other | refused other | take other | queue other | begin other
  | writeSome other | writeAll other | writeFailed other | abort other | expire other | tear other
  | shut other | again other | exhausted other | leave other | dropQueued other =>
    rw [here] at other
    cases other

/-- A call with a connection of its own never waits on the shared one. -/
theorem Stride.of_direct (stride : Stride ch n call event phase effect) (direct : call.phase.isDirect = true) :
    phase.isDirect = true ∨ phase.isEnded = true := by
  cases stride with
  | direct solo => exact solo.stays
  | timeout | drop => exact .inr rfl
  | miss _ _ place => obtain ⟨here, _⟩ | ⟨here, _⟩ := place <;> rw [here] at direct <;> cases direct
  | dropWriter place => exact .inr rfl
  | find here | dial here | connect here | refused here | take here | queue here | begin here
  | writeSome here | writeAll here | writeFailed here | abort here | expire here | tear here
  | shut here | again here | exhausted here | answered here | displaced here | cut here | leave here
  | dropQueued here =>
    rw [here] at direct
    cases direct

namespace Channel

/-- What a call is that will never wait on the shared connection. -/
theorem run_of_away (events : List Event) (here : ch.phase? n = some phase)
    (away : phase.isDirect = true ∨ phase.isEnded = true) :
    ∃ phase', (ch.run events).phase? n = some phase' ∧
      (phase'.isDirect = true ∨ phase'.isEnded = true) := by
  refine List.foldlRecOn (motive := fun ch => ∃ phase, ch.phase? n = some phase ∧
    (phase.isDirect = true ∨ phase.isEnded = true)) events step ⟨phase, here, away⟩ ?_
  rintro ch ⟨phase, here, away⟩ event _
  obtain ⟨call, found, rfl⟩ := phase?_eq_some.mp here
  obtain ⟨mailbox, after⟩ | ⟨phase, effect, _, stride, after⟩ := step_call event found
  · exact ⟨_, phase?_eq_some.mpr ⟨_, after, rfl⟩, away⟩
  · refine ⟨phase, phase?_eq_some.mpr ⟨_, after, rfl⟩, ?_⟩
    obtain direct | ended := away
    · exact stride.of_direct direct
    · rw [stride.live] at ended
      cases ended

theorem step_of_waiting (here : ch.phase? n = some (.waiting c)) (other : ¬ event.EndsWait n) :
    (ch.step event).phase? n = some (.waiting c) := by
  obtain ⟨call, found, waits⟩ := phase?_eq_some.mp here
  obtain ⟨mailbox, after⟩ | ⟨phase, effect, _, stride, _⟩ := step_call event found
  · exact phase?_eq_some.mpr ⟨_, after, waits⟩
  · exact (other (stride.endsWait waits)).elim

/-- A call waits until it does something itself. -/
theorem run_of_waiting (here : ch.phase? n = some (.waiting c)) (events : List Event)
    (others : ∀ e ∈ events, ¬ e.EndsWait n) : (ch.run events).phase? n = some (.waiting c) :=
  List.foldlRecOn (motive := fun ch => ch.phase? n = some (.waiting c)) events step here
    fun _ here e present => step_of_waiting here (others e present)

theorem closeFailure_eq {conn : Connection} {reason : CloseReason} (found : ch.conns[c]? = some conn)
    (first : conn.reason = some reason) : ch.closeFailure c = reason.failure := by
  rw [closeFailure, found, Option.bind_some, first]
  cases reason <;> rfl

/-- How a call ends that looks at what it was handed. -/
theorem phase?_settle (present : ch.calls[n]? = some call) (failure : Failure) :
    (ch.settle n c (ch.fail n failure)).phase? n = some (.done
      (match call.mailbox with
      | .full frame => (ch.codec.ofFrame frame).mapError .wire
      | .abandoned => .error (ch.closeFailure c)
      | .empty => .error failure)) := by
  have here : ch.phase? n = some call.phase := phase?_eq_some.mpr ⟨call, present, rfl⟩
  simp only [settle, present, outcome?]
  cases call.mailbox with
  | full frame => exact phase?_finish here _
  | abandoned => exact phase?_finish here _
  | empty => exact phase?_finish here _

theorem resume_of_waiting (here : ch.phase? n = some (.waiting c)) (closed : ch.isClosed c = true) :
    ch.step (.resume n) = ch.settle n c (ch.fail n (ch.closeFailure c)) := by
  simp only [step, resume, here, closed, if_true]

theorem expiry_of_waiting (here : ch.phase? n = some (.waiting c)) (own : event.IsExpiry n) :
    ch.step event = ch.settle n c (ch.fail n .timeout) := by
  obtain rfl | rfl := own
  · simp only [step, deadline, expire, here]
  · simp only [step, expire, here]

theorem drop_of_waiting (here : ch.phase? n = some (.waiting c)) :
    (ch.step (.drop n)).phase? n = some .dropped := by
  simp only [step, drop, here]
  exact phase?_finish here _

end Channel

namespace History

/-- A call that stops waiting on a closed connection gets its verdict. -/
theorem exists_verdict {h : History} {conn : Connection} {reason : CloseReason}
    (logged : Logged h.channel.ledger h.handed) (here : h.channel.phase? n = some (.waiting c))
    (found : h.channel.conns[c]? = some conn) (closed : conn.closed = true)
    (first : conn.reason = some reason) (ends : event.EndsWait n) :
    ∃ phase, Verdict h.channel.codec reason n h.handed event phase ∧
      (h.channel.step event).phase? n = some phase := by
  obtain ⟨call, present, waits⟩ := Channel.phase?_eq_some.mp here
  have isClosed : h.channel.isClosed c = true := by rw [Channel.isClosed, found]; exact closed
  have mail : h.channel.ledger.mail? n = some (call.requestId, call.mailbox) :=
    Ledger.mail?_eq_some.mpr ⟨call, present, rfl, rfl⟩
  have unserved : (∀ frame, call.mailbox ≠ .full frame) → ∀ frame, (n, frame) ∉ h.handed := by
    intro other frame held
    obtain ⟨id, full⟩ := logged.mem_log.mp held
    exact other frame (Prod.mk.inj (Option.some.inj (mail.symm.trans full))).2
  -- looking for the response and running out of time differ only if there is nothing in the mailbox
  have settles : ∀ failure, (event = .resume n ∧ failure = reason.failure ∨
        event.IsExpiry n ∧ failure = .timeout) →
      ∃ phase, Verdict h.channel.codec reason n h.handed event phase ∧
        (h.channel.settle n c (h.channel.fail n failure)).phase? n = some phase := by
    intro failure own
    rw [Channel.phase?_settle present, Channel.closeFailure_eq found first]
    cases given : call.mailbox with
    | full frame =>
      rw [given] at mail
      obtain ⟨answer, read⟩ := h.channel.codec.exists_ofFrame (logged.own mail).1
      dsimp only
      rw [read]
      exact ⟨_, .answered (logged.mem_log.mpr ⟨_, mail⟩) read (own.imp And.left And.left), rfl⟩
    | abandoned =>
      have nothing := unserved fun frame full => Mailbox.noConfusion (given.symm.trans full)
      obtain ⟨rfl, rfl⟩ | ⟨expiry, rfl⟩ := own
      · exact ⟨_, .stranded nothing, rfl⟩
      · exact ⟨_, .late nothing expiry (.inr rfl), rfl⟩
    | empty =>
      have nothing := unserved fun frame full => Mailbox.noConfusion (given.symm.trans full)
      obtain ⟨rfl, rfl⟩ | ⟨expiry, rfl⟩ := own
      · exact ⟨_, .stranded nothing, rfl⟩
      · exact ⟨_, .late nothing expiry (.inl rfl), rfl⟩
  obtain rfl | expiry | rfl := ends
  · rw [Channel.resume_of_waiting here isClosed, Channel.closeFailure_eq found first]
    exact settles _ (.inl ⟨rfl, rfl⟩)
  · rw [Channel.expiry_of_waiting here expiry]
    exact settles _ (.inr ⟨expiry, rfl⟩)
  · exact ⟨_, .dropped, Channel.drop_of_waiting here⟩

variable {codec : Codec} {events : List Event}

theorem handed_subset (events later : List Event) :
    (ofRun codec events).handed ⊆ (ofRun codec (events ++ later)).handed := by
  rw [ofRun_append]
  refine List.foldlRecOn (motive := fun h => (ofRun codec events).handed ⊆ h.handed) later step
    (List.Subset.refl _) fun h kept event _ => ?_
  exact List.Subset.trans kept (List.subset_append_left _ _)

/-- What a call is handed is decoded in some step of the run. -/
theorem exists_decode {later : List Event} {frame : Frame}
    (held : (n, frame) ∈ (ofRun codec (events ++ later)).handed) :
    (n, frame) ∈ (ofRun codec events).handed ∨
      ∃ before c after, later = before ++ .decode c :: after ∧
        (ofRun codec (events ++ before)).channel.response? (.decode c) = some frame := by
  induction later using List.reverseRecOn with
  | nil =>
    rw [List.append_nil] at held
    exact .inl held
  | append_singleton later last ih =>
    rw [← List.append_assoc, ofRun_concat, step] at held
    obtain earlier | now := List.mem_append.mp held
    · obtain before | ⟨before, c, after, rfl, taken⟩ := ih earlier
      · exact .inl before
      · exact .inr ⟨before, c, after ++ [last], by simp, taken⟩
    · obtain ⟨frame', taken, handed⟩ := Option.bind_eq_some_iff.mp (Option.mem_toList.mp now)
      obtain ⟨m, _, same⟩ := Option.map_eq_some_iff.mp handed
      obtain rfl : frame' = frame := congrArg Prod.snd same
      cases last with
      | decode c => exact .inr ⟨later, c, [], rfl, taken⟩
      | _ => cases taken

theorem handed_unique {frame frame' : Frame} (held : (n, frame) ∈ (ofRun codec events).handed)
    (held' : (n, frame') ∈ (ofRun codec events).handed) : frame = frame' := by
  have logged := logged_ofRun codec events
  obtain ⟨id, full⟩ := logged.mem_log.mp held
  obtain ⟨id', full'⟩ := logged.mem_log.mp held'
  exact Mailbox.full.inj (Prod.mk.inj (Option.some.inj (full.symm.trans full'))).2

/-- A response that is decoded while a call waits under its number is handed to the call. -/
theorem Sole.handed?_of_decoded {frame : Frame} (sole : Sole codec events n)
    (taken : (ofRun codec events).channel.response? event = some frame)
    (found : (ofRun codec events).channel.calls[n]? = some call)
    (number : frame.requestId = call.requestId) (live : call.phase.isEnded = false)
    (shared : call.phase.isDirect = false) (unserved : ∀ frame, (n, frame) ∉ (ofRun codec events).handed) :
    (ofRun codec events).channel.handed? event = some (n, frame) := by
  have logged := logged_ofRun codec events
  have empty : call.mailbox = .empty := by
    cases given : call.mailbox with
    | empty => rfl
    | full frame' =>
      have held := logged.mem_log.mpr ⟨_, Ledger.mail?_eq_some.mpr ⟨call, found, rfl, given⟩⟩
      exact (unserved frame' held).elim
    | abandoned => exact (sole.seated.kept found given).elim
  have present := sole.seated.present found ⟨live, shared, empty⟩
  have waiter : (ofRun codec events).channel.waiter? frame.requestId = some n :=
    (listed_ofRun codec events).lookup.mpr (number ▸ present)
  rw [Channel.handed?, taken, Option.bind_some, waiter, Option.map_some]

/-- So it reaches the call, unless another one did before. -/
theorem Sole.handed_of_decoded {frame : Frame} (sole : Sole codec events n)
    (taken : (ofRun codec events).channel.response? event = some frame)
    (found : (ofRun codec events).channel.calls[n]? = some call)
    (number : frame.requestId = call.requestId) (live : call.phase.isEnded = false)
    (shared : call.phase.isDirect = false) :
    ∃ frame', (n, frame') ∈ (ofRun codec (events ++ [event])).handed := by
  by_cases served : ∃ frame', (n, frame') ∈ (ofRun codec events).handed
  · obtain ⟨frame', held⟩ := served
    exact ⟨frame', handed_subset _ _ held⟩
  · have handed := sole.handed?_of_decoded taken found number live shared (not_exists.mp served)
    refine ⟨frame, ?_⟩
    rw [ofRun_concat, step, handed]
    exact List.mem_append_right _ (List.mem_singleton_self _)

end History

/-! ### What a close leaves alone -/

theorem Channel.conns_finish (ch : Channel) (n : Nat) (phase : Phase) : (ch.finish n phase).conns = ch.conns := by
  simp only [finish]
  split
  · rfl
  · split
    · rfl
    · rfl

namespace Closes

variable {reason : CloseReason}

theorem not_endsWait (closes : Closes ch c event reason) (n : Nat) : ¬ event.EndsWait n := by
  rintro (rfl | (rfl | rfl) | rfl) <;> cases closes

theorem conns_eq {c' : Nat} (closes : Closes ch c event reason) (other : c' ≠ c) :
    (ch.step event).conns[c']? = ch.conns[c']? := by
  have modified : ∀ f, (ch.conns.modify c f)[c']? = ch.conns[c']? :=
    fun f => List.getElem?_modify_ne f _ (Ne.symm other)
  cases closes with
  | reader found reader =>
    simp only [Channel.step, Channel.readerStops, found, reader, Channel.close, Channel.modifyConn,
      List.modify_modify_eq]
    exact modified _
  | expired here =>
    simp only [Channel.step, Channel.giveUp, here, Channel.fail, Channel.conns_finish]
    exact modified _
  | failed here =>
    simp only [Channel.step, Channel.giveUp, here]
    exact modified _

theorem calls_eq {m : Nat} (closes : Closes ch c event reason) (away : ch.conn? m ≠ some c) :
    (ch.step event).calls[m]? = ch.calls[m]? := by
  have giver : ∀ {n phase}, ch.phase? n = some phase → phase.conn? = some c →
      (ch.step (.giveUp n)).calls[m]? = ch.calls[m]? := by
    intro n phase here touches
    have other : n ≠ m := by
      rintro rfl
      exact away (by rw [Channel.conn?, here]; exact touches)
    obtain ⟨call, found, _⟩ := Channel.phase?_eq_some.mp here
    have goes : Goes ch n call (.giveUp n) (ch.step (.giveUp n)) := Channel.step_goes found rfl
    generalize ch.step (.giveUp n) = ch' at goes
    cases goes with
    | rest => rfl
    | stride _ took => rw [took.calls, if_neg other]
  cases closes with
  | reader => exact congrArg (·[m]?) (Channel.calls_readerStops ch c)
  | expired here => exact giver here rfl
  | failed here => exact giver here rfl

end Closes

namespace History

variable {codec : Codec} {events : List Event} {reason : CloseReason}

theorem own_of_handed {frame : Frame} (held : (n, frame) ∈ (ofRun codec events).handed) :
    frame.isResponse = true ∧
      (∃ call, (ofRun codec events).channel.calls[n]? = some call ∧ frame.requestId = call.requestId) ∧
      ∀ frame', (n, frame') ∈ (ofRun codec events).handed → frame' = frame := by
  have logged := logged_ofRun codec events
  obtain ⟨id, full⟩ := logged.mem_log.mp held
  obtain ⟨response, number⟩ := logged.own full
  obtain ⟨call, present, own, _⟩ := Ledger.mail?_eq_some.mp full
  exact ⟨response, ⟨call, present, number.trans own.symm⟩, fun frame' held' => handed_unique held' held⟩

/-- A call that waits was under way over the shared connection ever since it started. -/
theorem shared_of_waiting {later : List Event}
    (waiting : (ofRun codec (events ++ later)).channel.phase? n = some (.waiting c))
    (present : (ofRun codec events).channel.calls[n]? = some call) :
    call.phase.isEnded = false ∧ call.phase.isDirect = false := by
  have shares : ¬ (call.phase.isDirect = true ∨ call.phase.isEnded = true) := by
    intro away
    obtain ⟨phase, here, still⟩ := Channel.run_of_away later
      (Channel.phase?_eq_some.mpr ⟨call, present, rfl⟩) away
    rw [← channel_ofRun_append, waiting] at here
    cases here
    obtain direct | ended := still
    · cases direct
    · cases ended
  obtain ⟨shared, unended⟩ := not_or.mp shares
  exact ⟨Bool.eq_false_iff.mpr unended, Bool.eq_false_iff.mpr shared⟩

theorem recorded_ofRun {conn : Connection} (found : (ofRun codec events).channel.conns[c]? = some conn)
    (first : conn.reason = some reason) (later : List Event) :
    ∃ conn, (ofRun codec (events ++ later)).channel.conns[c]? = some conn ∧ conn.closed = true ∧
      conn.reason = some reason := by
  obtain ⟨conn', found', first'⟩ := Channel.reason_run later found first
  rw [← channel_ofRun_append] at found'
  refine ⟨conn', found', ?_, first'⟩
  rw [closed_eq_ofRun found', first']
  rfl

/-- What becomes of call `n`, which waits on connection `c` when `event` closes it for `reason`. -/
structure Fate (codec : Codec) (events : List Event) (event : Event) (n c : Nat) (reason : CloseReason) :
    Prop where
  closes : Closes (ofRun codec events).channel c event reason
  malformed : reason = .malformed → ∃ before after error rest, events = before ++ .decode c :: after ∧
    (ofRun codec before).channel.decoded? c = some (.failed error rest)
  /-- Later attempts to close the connection change nothing. -/
  recorded : ∀ later, ∃ conn, (ofRun codec (events ++ event :: later)).channel.conns[c]? = some conn ∧
    conn.closed = true ∧ conn.reason = some reason
  /-- The call waits until it does something itself. -/
  waits : ∀ later, (∀ e ∈ later, ¬ e.EndsWait n) →
    (ofRun codec (events ++ event :: later)).channel.phase? n = some (.waiting c)
  /-- Then it ends, for good. -/
  ends : ∀ before e after, (∀ e ∈ before, ¬ e.EndsWait n) → e.EndsWait n →
    ∃ phase, Verdict codec reason n (ofRun codec (events ++ event :: before)).handed e phase ∧
      (ofRun codec (events ++ event :: (before ++ e :: after))).channel.phase? n = some phase
  /-- What it is handed, before the close or after it, is one response under its own number. -/
  own : ∀ {later frame}, (n, frame) ∈ (ofRun codec (events ++ event :: later)).handed →
    frame.isResponse = true ∧
      (∃ call, (ofRun codec (events ++ event :: later)).channel.calls[n]? = some call ∧
        frame.requestId = call.requestId) ∧
      ∀ frame', (n, frame') ∈ (ofRun codec (events ++ event :: later)).handed → frame' = frame
  /-- If a response under its number was decoded before the close, it was handed one. -/
  decoded : ∀ {before after frame call c'}, events = before ++ .decode c' :: after →
    (ofRun codec before).channel.response? (.decode c') = some frame →
    (ofRun codec before).channel.calls[n]? = some call → frame.requestId = call.requestId →
    Sole codec events n → ∃ frame', ∀ later, (n, frame') ∈ (ofRun codec (events ++ event :: later)).handed
  /-- What it is handed after the close was decoded after it. -/
  behind : ∀ {later frame}, (n, frame) ∈ (ofRun codec (events ++ event :: later)).handed →
    (n, frame) ∈ (ofRun codec events).handed ∨
      ∃ before c' after, later = before ++ .decode c' :: after ∧
        (ofRun codec (events ++ event :: before)).channel.response? (.decode c') = some frame
  /-- Other connections and the calls on them are not affected. -/
  conns : ∀ {c'}, c' ≠ c →
    (ofRun codec (events ++ [event])).channel.conns[c']? = (ofRun codec events).channel.conns[c']?
  calls : ∀ {m}, (ofRun codec events).channel.conn? m ≠ some c →
    (ofRun codec (events ++ [event])).channel.calls[m]? = (ofRun codec events).channel.calls[m]?

/-- Two calls wait; the response to the first one comes in the same read as bytes that are no frame. -/
def brokenRead : List Event :=
  [.start {}, .start {}, .seek 0, .dialed 0 none, .seek 1, .enter 0, .write 0 64, .enter 1, .write 1 64,
    .received 0 (emptyReply 1 ++ List.replicate 20 9), .decode 0, .decode 0]

example :
    (ofRun (.bolt .v1 "") (brokenRead ++ [.readerStops 0, .resume 1, .resume 0])).channel.phase? 1 =
      some (.done (.error .timeout)) := rfl

/-- The first call waits; the second one runs out of time in the middle of its frame. -/
def tornFrame : List Event :=
  [.start {}, .start {}, .seek 0, .dialed 0 none, .enter 0, .write 0 64, .seek 1, .enter 1, .write 1 3,
    .deadline 1]

/-- The reader reads once more before it notices the close, and the call looks for its response before it
looks at the connection. -/
def readBehind : List Event :=
  [.received 0 (emptyReply 1), .decode 0, .resume 0]

end History
end Multiplex
end RpcClient
