import RpcClient.Proofs.Multiplex.Causes
import RpcClient.Proofs.Multiplex.Fate

/-! Calls that run out of time, or are cancelled, leave the others alone. Only a call that stops in the
middle of its frame takes its connection with it. -/
namespace RpcClient.Multiplex

/-- Call `n` gives up by the step: its deadline passes, or it is cancelled, while it connects or waits for
the writer or for its response, and that ends it. -/
structure GivesUp (ch : Channel) (n : Nat) (call : Call) (event : Event) : Prop where
  expiry : event.IsExpiry n
  place : call.phase = .seeking ∨ call.phase = .dialing ∨ (∃ c, call.phase = .queued c) ∨
    ∃ c, call.phase = .waiting c
  ended : (ch.step event).phase? n = some (.done (.error .timeout))

/-- Call `n` connects, or waits for a writer or a response that it has not been given. -/
def Awaits (ch : Channel) (n : Nat) (call : Call) : Prop :=
  call.phase = .seeking ∨ call.phase = .dialing ∨
    (∃ c, call.phase = .queued c ∧ ch.holder? c ≠ some n) ∨
      ∃ c, call.phase = .waiting c ∧ call.mailbox = .empty

/-- All that a call changes when it gives up, besides its own phase. It leaves the one queue it may stand
in, and the table. -/
structure Apart (ch : Channel) (n : Nat) (call : Call) (ch' : Channel) : Prop where
  calls : ∀ {m}, m ≠ n → ch'.calls[m]? = ch.calls[m]?
  pending : ch'.pending = ch.pending.filter (·.1 != call.requestId)
  current : ch'.current = ch.current
  dialer : ch'.dialer = ch.dialer.filter (· != n)
  conns : ch'.conns = ch.conns.map fun conn => { conn with queue := conn.queue.filter (· != n) }

variable {ch ch' : Channel} {n c : Nat} {call : Call} {event : Event}

theorem apart_fail {before : Channel} (found : ch.calls[n]? = some call)
    (shared : call.phase.isDirect = false) (calls : before.calls = ch.calls)
    (pending : before.pending = ch.pending) (current : before.current = ch.current)
    (dialer : before.dialer = ch.dialer.filter (· != n))
    (conns : before.conns = ch.conns.map fun conn => { conn with queue := conn.queue.filter (· != n) }) :
    Apart ch n call (before.fail n .timeout) := by
  rw [Channel.fail, Channel.finish_of_shared (calls ▸ found) shared]
  refine ⟨fun {m} other => ?_, congrArg _ pending, current, dialer, conns⟩
  rw [Channel.setPhase, Channel.modifyCall, Channel.unregister, calls,
    List.getElem?_modify_ne _ _ (Ne.symm other)]

/-- A call that does not connect keeps no other one from connecting. -/
theorem OneLine.filter_dialer (line : OneLine ch) (away : ch.phase? n ≠ some .dialing) :
    ch.dialer.filter (· != n) = ch.dialer := by
  cases dialing : ch.dialer with
  | none => rfl
  | some m =>
    refine Option.filter_some_pos (bne_iff_ne.mpr ?_)
    rintro rfl
    exact away (line.dialer.mp dialing)

/-- A call stands in no queue but that of its own connection. -/
theorem Lines.not_mem_queue (lines : Lines ch) {conn : Connection} (found : ch.conns[c]? = some conn)
    (away : ch.line? n ≠ some c) : n ∉ conn.queue :=
  fun present => away ((lines.line found).mem.mp (List.mem_append_right _ present))

theorem filter_queue_eq {conn : Connection} (absent : n ∉ conn.queue) :
    { conn with queue := conn.queue.filter (· != n) } = conn := by
  have same : conn.queue.filter (· != n) = conn.queue := by
    refine List.filter_eq_self.mpr fun m present => bne_iff_ne.mpr ?_
    rintro rfl
    exact absent present
  rw [same]

theorem Lines.map_queues_eq (lines : Lines ch) (away : ch.line? n = none) :
    (ch.conns.map fun conn => { conn with queue := conn.queue.filter (· != n) }) = ch.conns := by
  refine (List.map_congr_left fun conn present => ?_).trans (List.map_id' ch.conns)
  obtain ⟨c, found⟩ := List.getElem?_of_mem present
  refine filter_queue_eq (lines.not_mem_queue found ?_)
  rw [away]
  exact (Option.some_ne_none c).symm

theorem Lines.map_queues_eq_leaveQueue (lines : Lines ch) (here : ch.line? n = some c) :
    (ch.conns.map fun conn => { conn with queue := conn.queue.filter (· != n) }) =
      (ch.leaveQueue c n).conns := by
  refine List.ext_getElem? fun c' => ?_
  rw [Channel.leaveQueue, Channel.modifyConn, List.getElem?_map, List.getElem?_modify]
  cases found : ch.conns[c']? with
  | none => rfl
  | some conn =>
    rw [Option.map_some, Option.map_eq_map, Option.map_some, Option.some.injEq]
    split
    · rfl
    · next other =>
      refine filter_queue_eq (lines.not_mem_queue found ?_)
      rw [here]
      exact mt Option.some.inj other

/-- A call that looks at what it was handed and is told that its time is over was handed no response. -/
theorem Channel.settle_of_timeout (found : ch.calls[n]? = some call)
    (ended : (ch.settle n c (ch.fail n .timeout)).phase? n = some (.done (.error .timeout))) :
    ch.settle n c (ch.fail n .timeout) = ch.fail n .timeout := by
  rw [phase?_settle found, Option.some.injEq, Phase.done.injEq] at ended
  simp only [settle, found, outcome?]
  cases given : call.mailbox with
  | empty => rfl
  | full frame =>
    simp only [given] at ended
    cases read : ch.codec.ofFrame frame <;> rw [read] at ended <;> cases ended
  | abandoned =>
    simp only [given, Except.error.injEq] at ended
    simp only [ended]

theorem GivesUp.apart (gives : GivesUp ch n call event) (found : ch.calls[n]? = some call)
    (line : OneLine ch) (lines : Lines ch) : Apart ch n call (ch.step event) := by
  obtain ⟨expiry, phase, ended⟩ := gives
  have here : ch.phase? n = some call.phase := Channel.phase?_eq_some.mpr ⟨call, found, rfl⟩
  have place : ch.line? n = call.phase.line? := by rw [Channel.line?, here, Option.bind_some]
  have dialer : call.phase ≠ .dialing → ch.dialer = ch.dialer.filter (· != n) := by
    intro away
    refine (line.filter_dialer fun dials => away ?_).symm
    exact Option.some.inj (here.symm.trans dials)
  obtain seeks | dials | ⟨c, queued⟩ | ⟨c, waits⟩ := phase
  · rw [seeks] at here place dialer
    have same : ch.step event = ch.fail n .timeout := by
      obtain rfl | rfl := expiry <;> simp only [Channel.step, Channel.deadline, Channel.expire, here]
    rw [same]
    exact apart_fail found (by rw [seeks]; rfl) rfl rfl rfl (dialer Phase.noConfusion)
      (lines.map_queues_eq place).symm
  · rw [dials] at here place
    have same : ch.step event = { ch with dialer := none }.fail n .timeout := by
      obtain rfl | rfl := expiry <;> simp only [Channel.step, Channel.deadline, Channel.expire, here]
    rw [same]
    refine apart_fail found (by rw [dials]; rfl) rfl rfl rfl ?_ (lines.map_queues_eq place).symm
    rw [line.dialer.mpr here, Option.filter_some_neg (by simp)]
  · rw [queued] at here place dialer
    obtain rfl | rfl := expiry
    · simp only [Channel.step, Channel.deadline, here] at ended ⊢
      split at ended
      · rw [here] at ended
        cases ended
      · next other =>
        rw [if_neg other]
        exact apart_fail found (by rw [queued]; rfl) rfl rfl rfl (dialer Phase.noConfusion)
          (lines.map_queues_eq_leaveQueue place).symm
    · -- a call that waits for the writer does not look out for cancellation
      simp only [Channel.step, Channel.expire, here] at ended
      cases ended
  · rw [waits] at here place dialer
    rw [Channel.expiry_of_waiting here expiry] at ended ⊢
    rw [Channel.settle_of_timeout found ended]
    exact apart_fail found (by rw [waits]; rfl) rfl rfl rfl (dialer Phase.noConfusion)
      (lines.map_queues_eq place).symm

/-- A deadline ends a call that connects or waits, unless it has been given what it waits for. -/
theorem Awaits.givesUp (awaits : Awaits ch n call) (found : ch.calls[n]? = some call) :
    GivesUp ch n call (.deadline n) := by
  have here : ch.phase? n = some call.phase := Channel.phase?_eq_some.mpr ⟨call, found, rfl⟩
  obtain seeks | dials | ⟨c, queued, other⟩ | ⟨c, waits, empty⟩ := awaits
  · refine ⟨.inl rfl, .inl seeks, ?_⟩
    rw [seeks] at here
    simp only [Channel.step, Channel.deadline, Channel.expire, here]
    exact Channel.phase?_finish here _
  · refine ⟨.inl rfl, .inr (.inl dials), ?_⟩
    rw [dials] at here
    simp only [Channel.step, Channel.deadline, Channel.expire, here]
    have dials : ({ ch with dialer := none } : Channel).phase? n = some .dialing := here
    exact Channel.phase?_finish dials _
  · refine ⟨.inl rfl, .inr (.inr (.inl ⟨c, queued⟩)), ?_⟩
    rw [queued] at here
    simp only [Channel.step, Channel.deadline, here]
    split
    · next held => exact (other held).elim
    · have queued : (ch.leaveQueue c n).phase? n = some (.queued c) := here
      exact Channel.phase?_finish queued _
  · refine ⟨.inl rfl, .inr (.inr (.inr ⟨c, waits⟩)), ?_⟩
    rw [waits] at here
    rw [Channel.expiry_of_waiting here (.inl rfl), Channel.phase?_settle found, empty]

/-! ### Locks -/

/-- Call `n` keeps no other call from connecting or from writing. Only calls under way do, and where none
does the next call goes on. -/
structure Unlocked (ch : Channel) (n : Nat) : Prop where
  dialer : ∀ {m}, ch.dialer = some m → m ≠ n ∧ ch.phase? m = some .dialing
  /-- A call that has a writer writes, or is about to. -/
  holder : ∀ {c m}, ch.holder? c = some m → m ≠ n ∧ ch.line? m = some c
  queue : ∀ {c : Nat} {conn : Connection}, ch.conns[c]? = some conn →
    n ∉ conn.queue ∧ (conn.holder = none → conn.queue = [])
  connects : ∀ {m}, ch.phase? m = some .seeking → ch.dialer = none →
    (∃ c, ch.isClosed c = false ∧ (ch.step (.seek m)).phase? m = some (.entering c)) ∨
      (ch.step (.seek m)).phase? m = some .dialing
  writes : ∀ {m c : Nat} {call : Call} {conn : Connection}, ch.calls[m]? = some call →
    ch.conns[c]? = some conn → conn.writable = true →
    call.phase = .entering c ∧ conn.holder = none ∨ call.phase = .queued c ∧ conn.holder = some m →
    (ch.step (.enter m)).phase? m = some (.writing c call.wire)

theorem Channel.seek_of_free {m : Nat} (seeks : ch.phase? m = some .seeking) (free : ch.dialer = none) :
    (∃ c, ch.isClosed c = false ∧ (ch.step (.seek m)).phase? m = some (.entering c)) ∨
      (ch.step (.seek m)).phase? m = some .dialing := by
  cases shared : ch.open? with
  | some c =>
    refine .inl ⟨c, (open?_eq_some.mp shared).2, ?_⟩
    simp only [step, seek, seeks, free, shared]
    exact (phase?_setPhase seeks m).trans (if_pos rfl)
  | none =>
    refine .inr ?_
    simp only [step, seek, seeks, free, shared]
    exact (phase?_setPhase seeks m).trans (if_pos rfl)

theorem Channel.enter_of_free {m : Nat} {conn : Connection} (found : ch.calls[m]? = some call)
    (present : ch.conns[c]? = some conn) (writable : conn.writable = true)
    (place : call.phase = .entering c ∧ conn.holder = none ∨ call.phase = .queued c ∧ conn.holder = some m) :
    (ch.step (.enter m)).phase? m = some (.writing c call.wire) := by
  have here : ch.phase? m = some call.phase := phase?_eq_some.mpr ⟨call, found, rfl⟩
  obtain ⟨enters, free⟩ | ⟨queued, held⟩ := place
  · rw [enters] at here
    simp only [step, enter, here, present, Option.bind_some, free, startWriting, modifyConn, found,
      List.getElem?_modify_eq, Option.map_eq_map, Option.map_some, writable, if_true]
    exact (phase?_setPhase here m).trans (if_pos rfl)
  · rw [queued] at here
    simp only [step, enter, here, present, Option.bind_some, held, if_true, startWriting, found, writable]
    exact (phase?_setPhase here m).trans (if_pos rfl)

theorem unlocked (line : OneLine ch) (lines : Lines ch) {phase : Phase} (here : ch.phase? n = some phase)
    (ended : phase.isEnded = true) : Unlocked ch n := by
  have away : ∀ c, ch.line? n ≠ some c := by
    intro c stands
    rw [Channel.line?, here, Option.bind_some, Phase.line?_of_isEnded ended] at stands
    cases stands
  refine ⟨fun {m} dialing => ?_, fun {c m} held => ?_, fun {c conn} found => ?_, Channel.seek_of_free,
    Channel.enter_of_free⟩
  · have dials := line.dialer.mp dialing
    refine ⟨?_, dials⟩
    rintro rfl
    rw [Option.some.inj (here.symm.trans dials)] at ended
    cases ended
  · obtain ⟨conn, found, holder⟩ := Option.bind_eq_some_iff.mp held
    have stands : ch.line? m = some c :=
      (lines.line found).mem.mp (List.mem_append_left _ (Option.mem_toList.mpr holder))
    refine ⟨?_, stands⟩
    rintro rfl
    exact away c stands
  · exact ⟨lines.not_mem_queue found (away c), (lines.line found).free⟩

namespace History

variable {codec : Codec} {events : List Event}

theorem oneLine_ofRun (codec : Codec) (events : List Event) : OneLine (ofRun codec events).channel := by
  rw [channel_ofRun]
  exact OneLine.run codec events

theorem lines_ofRun (codec : Codec) (events : List Event) : Lines (ofRun codec events).channel := by
  rw [channel_ofRun]
  exact Lines.run codec events

/-- A response that is decoded while a call waits under its number gets to the call. -/
theorem Sole.calls_of_decoded {frame : Frame} (sole : Sole codec events n)
    (taken : (ofRun codec events).channel.response? (.decode c) = some frame)
    (found : (ofRun codec events).channel.calls[n]? = some call)
    (number : frame.requestId = call.requestId) (waits : call.Waits) :
    (ofRun codec (events ++ [.decode c])).channel.calls[n]? = some { call with mailbox := .full frame } := by
  obtain ⟨live, shared, empty⟩ := waits
  have unserved : ∀ frame, (n, frame) ∉ (ofRun codec events).handed := by
    intro frame held
    obtain ⟨id, full⟩ := (logged_ofRun codec events).mem_log.mp held
    obtain ⟨call', found', _, given⟩ := Ledger.mail?_eq_some.mp full
    obtain rfl := Option.some.inj (found.symm.trans found')
    rw [empty] at given
    cases given
  have handed := sole.handed?_of_decoded taken found number live shared unserved
  have held : (n, frame) ∈ (ofRun codec (events ++ [.decode c])).handed := by
    rw [ofRun_concat, step, handed]
    exact List.mem_append_right _ (List.mem_singleton_self _)
  obtain ⟨id, full⟩ := (logged_ofRun codec _).mem_log.mp held
  obtain ⟨call', found', _, given⟩ := Ledger.mail?_eq_some.mp full
  rw [ofRun_concat, step] at found' ⊢
  obtain ⟨mailbox, after⟩ := Channel.calls_decode (c := c) found
  obtain rfl := Option.some.inj (after.symm.trans found')
  rw [show mailbox = .full frame from given] at after
  exact after

/-- What holds where call `n` gives up by `event` after the run of `events`. -/
structure Isolated (codec : Codec) (events : List Event) (n : Nat) (call : Call) (event : Event) : Prop where
  apart : Apart (ofRun codec events).channel n call (ofRun codec (events ++ [event])).channel
  closed : ∀ c, (ofRun codec (events ++ [event])).channel.isClosed c = (ofRun codec events).channel.isClosed c
  waiters : (ofRun codec events).channel.ledger.Alone n → ∀ {id m}, m ≠ n →
    ((id, m) ∈ (ofRun codec (events ++ [event])).channel.pending ↔
      (id, m) ∈ (ofRun codec events).channel.pending)
  unlocked : ∀ later, Unlocked (ofRun codec (events ++ event :: later)).channel n
  /-- A response that is decoded later gets to the call that waits for it. -/
  delivered : ∀ {later : List Event} {c m : Nat} {frame : Frame} {other : Call},
    (ofRun codec (events ++ event :: later)).channel.response? (.decode c) = some frame →
    (ofRun codec (events ++ event :: later)).channel.calls[m]? = some other →
    frame.requestId = other.requestId → other.Waits → Sole codec (events ++ event :: later) m →
      (ofRun codec (events ++ event :: (later ++ [.decode c]))).channel.calls[m]? =
        some { other with mailbox := .full frame }

theorem isolated_of_givesUp (found : (ofRun codec events).channel.calls[n]? = some call)
    (gives : GivesUp (ofRun codec events).channel n call event) : Isolated codec events n call event := by
  have apart : Apart (ofRun codec events).channel n call (ofRun codec (events ++ [event])).channel := by
    rw [ofRun_concat]
    exact gives.apart found (oneLine_ofRun codec events) (lines_ofRun codec events)
  refine ⟨apart, fun c => ?_, fun alone {id m} other => ?_, fun later => ?_, ?_⟩
  · rw [Channel.isClosed, apart.conns, List.getElem?_map, Option.map_map]
    rfl
  · rw [apart.pending, List.mem_filter, and_iff_left_iff_imp]
    intro present
    obtain ⟨call', found', number, live, shared, _⟩ := (listed_ofRun codec events).waits present
    refine bne_iff_ne.mpr fun same => other ?_
    exact alone found found' (number.trans same) live shared
  · have ended : (ofRun codec (events ++ event :: later)).channel.phase? n =
        some (.done (.error .timeout)) := by
      rw [channel_ofRun_append]
      exact Channel.run_of_ended later gives.ended rfl
    exact Multiplex.unlocked (oneLine_ofRun codec _) (lines_ofRun codec _) ended rfl
  · intro later c m frame other taken found' number waits sole
    rw [← List.cons_append, ← List.append_assoc]
    exact sole.calls_of_decoded taken found' number waits

/-- With fewer calls than there are numbers no two calls share one. So all others keep their places in the table
when a call gives up, and a response that is decoded later gets to the call that waits for it. -/
theorem served_of_few {later : List Event} (found : (ofRun codec events).channel.calls[n]? = some call)
    (gives : GivesUp (ofRun codec events).channel n call event)
    (few : (ofRun codec (events ++ event :: later)).requests.length < UInt32.size) :
    (∀ {id m}, m ≠ n → ((id, m) ∈ (ofRun codec (events ++ [event])).channel.pending ↔
        (id, m) ∈ (ofRun codec events).channel.pending)) ∧
      ∀ {c m : Nat} {frame : Frame} {other : Call},
        (ofRun codec (events ++ event :: later)).channel.response? (.decode c) = some frame →
        (ofRun codec (events ++ event :: later)).channel.calls[m]? = some other →
        frame.requestId = other.requestId → other.Waits →
          (ofRun codec (events ++ event :: (later ++ [.decode c]))).channel.calls[m]? =
            some { other with mailbox := .full frame } := by
  have isolated := isolated_of_givesUp found gives
  refine ⟨isolated.waiters (sole_of_few few n events (List.prefix_append _ _)), ?_⟩
  intro c m frame other taken found' number waits
  exact isolated.delivered taken found' number waits (sole_of_few few m)

/-- What calls that run out of time do to the others, and to the connections. -/
structure Isolation (codec : Codec) (events : List Event) : Prop where
  gives : ∀ {n call}, (ofRun codec events).channel.calls[n]? = some call →
    Awaits (ofRun codec events).channel n call → GivesUp (ofRun codec events).channel n call (.deadline n)
  isolated : ∀ {n call event}, (ofRun codec events).channel.calls[n]? = some call →
    GivesUp (ofRun codec events).channel n call event → Isolated codec events n call event
  /-- No deadline is behind the closing of a connection but that of a call in the middle of its frame. -/
  cause : ∀ {event c}, (ofRun codec events).channel.isClosed c = false →
    (ofRun codec (events ++ [event])).channel.isClosed c = true → Cause codec events c event

/-- The first call waits for the writer, which the second one has. -/
def writerTaken : List Event :=
  [.start {}, .start {}, .seek 0, .dialed 0 none, .seek 1, .enter 1, .enter 0]

/-- The first call gives up, and the second one still gets its response. -/
example :
    (∃ call, (ofRun (.bolt .v1 "") writerTaken).channel.calls[0]? = some call ∧
      Awaits (ofRun (.bolt .v1 "") writerTaken).channel 0 call) ∧
    (ofRun (.bolt .v1 "") (writerTaken ++
      [.deadline 0, .write 1 64, .received 0 (emptyReply 2), .decode 0])).handed.map Prod.fst = [1] :=
  ⟨⟨_, rfl, .inr (.inr (.inl ⟨0, rfl, by decide⟩))⟩, rfl⟩

end History
end RpcClient.Multiplex
