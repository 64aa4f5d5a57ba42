import RpcClient.Proofs.Multiplex.Ledger

/-! What a step does to the connections of a channel. Most steps start none, put none out of use and leave
the right to connect where it is; the moves tell what the others do. -/
namespace RpcClient.Multiplex

namespace Phase

/-- The shared connection that the call has to do with. -/
def conn? : Phase → Option Nat
  | .entering c | .queued c | .writing c _ | .expired c | .failed c _ | .clearing c _ | .waiting c => some c
  | _ => none

/-- Whether the call leaves it to others to start connections and to put them out of use. -/
def isSteady : Phase → Bool
  | .dialing | .clearing _ _ => false
  | _ => true

/-- Whether the call connects. -/
def isDialing : Phase → Bool
  | .dialing => true
  | _ => false

theorem isSteady_of_isEnded {phase : Phase} (ends : phase.isEnded = true) : phase.isSteady = true := by
  cases phase <;> first | rfl | cases ends

theorem conn?_of_isEnded {phase : Phase} (ends : phase.isEnded = true) : phase.conn? = none := by
  cases phase <;> first | rfl | cases ends

end Phase

/-- The shared connection that a call has to do with. -/
def Channel.conn? (ch : Channel) (n : Nat) : Option Nat :=
  (ch.phase? n).bind Phase.conn?

/-- A change that starts no connection and puts none out of use. It may close some. -/
structure Calm (ch ch' : Channel) : Prop where
  closed : ∀ {c}, ch.isClosed c = true → ch'.isClosed c = true
  length : ch'.conns.length = ch.conns.length
  current : ch'.current = ch.current
  dialer : ch'.dialer = ch.dialer
  dialing : ∀ {n}, ch'.phase? n = some .dialing ↔ ch.phase? n = some .dialing
  clearing : ∀ {n c failure}, ch'.phase? n = some (.clearing c failure) →
    ch.phase? n = some (.clearing c failure)
  conn? : ∀ {n c}, ch'.conn? n = some c → ch.conn? n = some c

/-- What a step does to the connections. -/
inductive Move (ch : Channel) : Event → Channel → Prop where
  | calm {event : Event} {ch' : Channel} : Calm ch ch' → Move ch event ch'
  /-- A call finds the shared connection open. -/
  | find {n c : Nat} : ch.phase? n = some .seeking → ch.dialer = none → ch.open? = some c →
      Move ch (.seek n) (ch.setPhase n (.entering c))
  /-- A call finds no open connection and starts to connect. -/
  | dial {n : Nat} : ch.phase? n = some .seeking → ch.dialer = none → ch.open? = none →
      Move ch (.seek n) { ch.setPhase n .dialing with dialer := some n }
  /-- A call has connected. -/
  | connect {n : Nat} : ch.phase? n = some .dialing →
      Move ch (.dialed n none)
        { ch.setPhase n (.entering ch.conns.length) with
          dialer := none, conns := ch.conns ++ [.fresh], current := some ch.conns.length }
  /-- A call ends that was connecting. -/
  | hangUp {event : Event} {n : Nat} {phase : Phase} : ch.phase? n = some .dialing →
      phase.isEnded = true → Move ch event ({ ch with dialer := none }.finish n phase)
  /-- A call has closed the connection that it could not write on. -/
  | giveUp {n c : Nat} {failure : Failure} : ch.phase? n = some (.failed c failure) →
      Move ch (.giveUp n) ((ch.close c .broken).setPhase n (.clearing c failure))
  /-- A call puts the connection that it has closed out of use. -/
  | clear {n c : Nat} {failure : Failure} {ch' : Channel} :
      ch.phase? n = some (.clearing c failure) →
      Calm { ch with current := ch.current.filter (· != c) } ch' → Move ch (.clear n) ch'

namespace Channel

variable {ch ch' ch'' : Channel} {n c : Nat}

theorem phase?_modifyCall {f : Call → Call} {call : Call} (found : ch.calls[n]? = some call) (m : Nat) :
    (ch.modifyCall n f).phase? m = if n = m then some (f call).phase else ch.phase? m := by
  rw [phase?, phase?, modifyCall, getElem?_modify_of_eq_some found]
  split
  · rfl
  · rfl

theorem phase?_setPhase {old phase : Phase} (here : ch.phase? n = some old) (m : Nat) :
    (ch.setPhase n phase).phase? m = if n = m then some phase else ch.phase? m := by
  obtain ⟨call, found, _⟩ := phase?_eq_some.mp here
  exact phase?_modifyCall found m

theorem phase?_modifyCall_of_phase {f : Call → Call} (same : ∀ call, (f call).phase = call.phase)
    (m : Nat) : (ch.modifyCall n f).phase? m = ch.phase? m := by
  cases found : ch.calls[n]? with
  | none =>
    rw [modifyCall, List.modify_eq_self (List.getElem?_eq_none_iff.mp found)]
  | some call =>
    rw [phase?_modifyCall found]
    split
    · next here => rw [same, ← here, phase?, found, Option.map_some]
    · rfl

theorem isClosed_modifyConn {f : Connection → Connection}
    (closing : ∀ conn, conn.closed = true → (f conn).closed = true) {c' : Nat}
    (closed : ch.isClosed c' = true) : (ch.modifyConn c f).isClosed c' = true := by
  simp only [isClosed, modifyConn] at closed ⊢
  by_cases here : c = c'
  · subst here
    rw [List.getElem?_modify_eq]
    cases found : ch.conns[c]? with
    | none => rfl
    | some conn =>
      rw [found] at closed
      exact closing conn closed
  · rwa [List.getElem?_modify_ne f _ here]

theorem finish_eq (ch : Channel) {old : Phase} (here : ch.phase? n = some old) (phase : Phase) :
    ∃ pending, ch.finish n phase = { ch.setPhase n phase with pending } := by
  obtain ⟨call, found, _⟩ := phase?_eq_some.mp here
  cases kind : call.phase <;> simp only [finish, found, kind] <;> exact ⟨_, rfl⟩

theorem phase?_finish {old : Phase} (here : ch.phase? n = some old) (phase : Phase) :
    (ch.finish n phase).phase? n = some phase := by
  obtain ⟨pending, finished⟩ := finish_eq ch here phase
  rw [finished]
  exact (phase?_setPhase here n).trans (if_pos rfl)

theorem conns_retry (ch : Channel) (n : Nat) (failure : Failure) :
    (ch.retry n failure).conns = ch.conns := by
  simp only [retry]
  split
  · rfl
  · next call found =>
    split
    · obtain ⟨pending, finished⟩ := finish_eq ch (phase?_eq_some.mpr ⟨call, found, rfl⟩) _
      rw [fail, finished]
      rfl
    · rfl

/-! ### Changes that are calm -/

theorem calm_of_eq (calls : ch'.calls = ch.calls) (conns : ch'.conns = ch.conns)
    (current : ch'.current = ch.current) (dialer : ch'.dialer = ch.dialer) : Calm ch ch' := by
  have phases : ∀ n, ch'.phase? n = ch.phase? n := fun n => by rw [phase?, phase?, calls]
  refine ⟨?_, by rw [conns], current, dialer, ?_, ?_, ?_⟩
  all_goals simp only [isClosed, conns, conn?, phases, imp_self, implies_true]

theorem calm_refl (ch : Channel) : Calm ch ch := calm_of_eq rfl rfl rfl rfl

theorem calm_trans (first : Calm ch ch') (second : Calm ch' ch'') : Calm ch ch'' where
  closed closed := second.closed (first.closed closed)
  length := second.length.trans first.length
  current := second.current.trans first.current
  dialer := second.dialer.trans first.dialer
  dialing := second.dialing.trans first.dialing
  clearing here := first.clearing (second.clearing here)
  conn? here := first.conn? (second.conn? here)

theorem calm_modifyConn {f : Connection → Connection}
    (closing : ∀ conn, conn.closed = true → (f conn).closed = true) : Calm ch (ch.modifyConn c f) :=
  ⟨isClosed_modifyConn closing, List.length_modify _ _ _, rfl, rfl, Iff.rfl, id, id⟩

theorem calm_release (ch : Channel) (c : Nat) : Calm ch (ch.release c) :=
  calm_modifyConn fun _ closed => closed

theorem calm_leaveQueue (ch : Channel) (c n : Nat) : Calm ch (ch.leaveQueue c n) :=
  calm_modifyConn fun _ closed => closed

theorem calm_dropIfClosed (ch : Channel) (c : Nat) : Calm ch (ch.dropIfClosed c) :=
  calm_modifyConn fun _ closed => closed

theorem calm_close (ch : Channel) (c : Nat) (reason : CloseReason) : Calm ch (ch.close c reason) :=
  calm_modifyConn fun _ _ => rfl

theorem calm_unregister (ch : Channel) (id : UInt64) : Calm ch (ch.unregister id) :=
  calm_of_eq rfl rfl rfl rfl

theorem calm_modifyCall_of_phase {f : Call → Call} (same : ∀ call, (f call).phase = call.phase) :
    Calm ch (ch.modifyCall n f) := by
  have phases : ∀ {m}, (ch.modifyCall n f).phase? m = ch.phase? m :=
    fun {m} => phase?_modifyCall_of_phase same m
  refine ⟨id, rfl, rfl, rfl, ?_, ?_, ?_⟩
  · intro m
    rw [phases]
  · intro m c failure
    rw [phases]
    exact id
  · intro m c
    rw [conn?, phases]
    exact id

/-- A call goes on to a phase in which it does not start connections or put them out of use. -/
theorem calm_modifyCall {f : Call → Call} {call : Call} (found : ch.calls[n]? = some call)
    (before : call.phase.isDialing = false) (after : (f call).phase.isSteady = true)
    (keeps : (f call).phase.conn? = none ∨ (f call).phase.conn? = call.phase.conn?) :
    Calm ch (ch.modifyCall n f) := by
  have phases : ∀ m, (ch.modifyCall n f).phase? m = if n = m then some (f call).phase else ch.phase? m :=
    phase?_modifyCall found
  refine ⟨id, rfl, rfl, rfl, ?_, ?_, ?_⟩
  · intro m
    rw [phases]
    split
    · next here =>
      subst here
      rw [phase?, found, Option.map_some, Option.some.injEq, Option.some.injEq]
      constructor
      · intro dialing
        rw [dialing] at after
        cases after
      · intro dialing
        rw [dialing] at before
        cases before
    · exact Iff.rfl
  · intro m c failure here
    rw [phases] at here
    split at here
    · rw [Option.some.inj here] at after
      cases after
    · exact here
  · intro m c here
    rw [conn?, phases] at here
    split at here
    · next same =>
      subst same
      have conn : (f call).phase.conn? = some c := here
      obtain away | same := keeps
      · rw [away] at conn
        cases conn
      · rw [conn?, phase?, found]
        exact same.symm.trans conn
    · exact here

theorem calm_setPhase {old phase : Phase} (here : ch.phase? n = some old) (before : old.isDialing = false)
    (after : phase.isSteady = true) (keeps : phase.conn? = none ∨ phase.conn? = old.conn?) :
    Calm ch (ch.setPhase n phase) := by
  obtain ⟨call, found, rfl⟩ := phase?_eq_some.mp here
  exact calm_modifyCall found before after keeps

theorem calm_finish {old phase : Phase} (here : ch.phase? n = some old) (before : old.isDialing = false)
    (ends : phase.isEnded = true) : Calm ch (ch.finish n phase) := by
  have set : ∀ {ch : Channel}, ch.phase? n = some old → Calm ch (ch.setPhase n phase) := by
    intro ch here
    exact calm_setPhase here before (Phase.isSteady_of_isEnded ends) (.inl (Phase.conn?_of_isEnded ends))
  simp only [finish]
  split
  · exact calm_refl ch
  · split
    · exact set here
    · exact calm_trans (calm_unregister ch _) (set here)

theorem calm_fail {old : Phase} {failure : Failure} (here : ch.phase? n = some old)
    (before : old.isDialing = false) : Calm ch (ch.fail n failure) :=
  calm_finish here before rfl

theorem calm_answer {old : Phase} {frame : Frame} (here : ch.phase? n = some old)
    (before : old.isDialing = false) : Calm ch (ch.answer n frame) :=
  calm_finish here before rfl

theorem calm_settle {otherwise : Channel} (here : ch.phase? n = some (.waiting c))
    (calm : Calm ch otherwise) : Calm ch (ch.settle n c otherwise) := by
  simp only [settle]
  split
  · exact calm_refl ch
  · split
    · exact calm_answer here rfl
    · exact calm_fail here rfl
    · exact calm

theorem calm_startWriting {old : Phase} (here : ch.phase? n = some old) (before : old.isDialing = false)
    (keeps : old.conn? = some c) : Calm ch (ch.startWriting n c) := by
  simp only [startWriting]
  split
  · split
    · exact calm_setPhase here before rfl (.inr keeps.symm)
    · exact calm_trans (calm_release ch c)
        (calm_setPhase here before rfl (.inr keeps.symm))
  · exact calm_refl ch

theorem calm_retry {old : Phase} {failure : Failure} (here : ch.phase? n = some old)
    (before : old.isDialing = false) : Calm ch (ch.retry n failure) := by
  obtain ⟨call, found, rfl⟩ := phase?_eq_some.mp here
  simp only [retry, found]
  split
  · exact calm_fail here before
  · exact calm_modifyCall found before rfl (.inl rfl)

theorem calm_deliver (ch : Channel) (frame : Frame) : Calm ch (ch.deliver frame) := by
  simp only [deliver]
  split
  · exact calm_refl ch
  · exact calm_trans (calm_unregister ch _) (calm_modifyCall_of_phase fun _ => rfl)

theorem phase?_append {lastId : UInt32} {call : Call} (m : Nat) :
    ({ ch with lastId, calls := ch.calls ++ [call] } : Channel).phase? m =
      if m = ch.calls.length then some call.phase else ch.phase? m := by
  rw [phase?, phase?, getElem?_concat]
  split
  · rfl
  · rfl

/-- A new call starts no connections and puts none out of use. -/
theorem calm_append {lastId : UInt32} {call : Call} (steady : call.phase.isSteady = true)
    (away : call.phase.conn? = none) : Calm ch { ch with lastId, calls := ch.calls ++ [call] } := by
  have absent : ch.phase? ch.calls.length = none := by simp [phase?]
  refine ⟨id, rfl, rfl, rfl, ?_, ?_, ?_⟩
  · intro m
    rw [phase?_append]
    split
    · next last =>
      subst last
      rw [absent, Option.some.injEq]
      constructor
      · intro dialing
        rw [dialing] at steady
        cases steady
      · intro dialing
        cases dialing
    · exact Iff.rfl
  · intro m c failure here
    rw [phase?_append] at here
    split at here
    · rw [Option.some.inj here] at steady
      cases steady
    · exact here
  · intro m c here
    rw [conn?, phase?_append] at here
    split at here
    · rw [Option.bind_some, away] at here
      cases here
    · exact here

theorem calm_register (ch : Channel) (id : UInt64) (n : Nat) : Calm ch (ch.register id n) := by
  simp only [register]
  split
  · exact calm_of_eq rfl rfl rfl rfl
  · next old _ =>
    have displaced : Calm ch (ch.modifyCall old fun call => { call with mailbox := .abandoned }) :=
      calm_modifyCall_of_phase fun _ => rfl
    exact calm_trans displaced (calm_of_eq rfl rfl rfl rfl)

theorem calm_start (ch : Channel) (request : Request) : Calm ch (ch.start request) := by
  simp only [start]
  split
  · exact calm_append rfl rfl
  · split
    · exact calm_append rfl rfl
    · have numbered : Calm ch { ch with lastId := nextId ch.lastId } := calm_of_eq rfl rfl rfl rfl
      exact calm_trans (calm_trans numbered (calm_register _ _ _)) (calm_append rfl rfl)

theorem calm_stopWriting {rest : Bytes} {failure : Failure}
    (here : ch.phase? n = some (.writing c rest)) : Calm ch (ch.stopWriting n c failure) :=
  calm_trans (calm_trans (calm_dropIfClosed ch c) (calm_release _ c))
    (calm_setPhase here rfl rfl (.inr rfl))

theorem calm_received (ch : Channel) (c : Nat) (bytes : Bytes) : Calm ch (ch.received c bytes) := by
  refine calm_modifyConn fun conn closed => ?_
  split
  · exact closed
  · exact closed

theorem calm_ended (ch : Channel) (c : Nat) : Calm ch (ch.ended c) := by
  refine calm_modifyConn fun conn closed => ?_
  split
  · exact closed
  · exact closed

theorem calm_decode (ch : Channel) (c : Nat) : Calm ch (ch.decode c) := by
  simp only [decode]
  split
  · exact calm_refl ch
  · exact calm_modifyConn fun _ closed => closed
  · exact calm_modifyConn fun _ closed => closed
  · split
    · refine calm_trans (calm_modifyConn ?_) (calm_deliver _ _)
      exact fun _ closed => closed
    · exact calm_modifyConn fun _ closed => closed

theorem calm_readerStops (ch : Channel) (c : Nat) : Calm ch (ch.readerStops c) := by
  simp only [readerStops]
  split
  · split
    · exact calm_trans (calm_close ch c _) (calm_modifyConn fun _ closed => closed)
    · split
      · exact calm_modifyConn fun _ closed => closed
      · exact calm_refl ch
    · exact calm_refl ch
  · exact calm_refl ch

theorem calm_enter (ch : Channel) (n : Nat) : Calm ch (ch.enter n) := by
  simp only [enter]
  split
  · split
    · next c here _ _ =>
      refine calm_trans (calm_modifyConn ?_) (calm_startWriting here rfl rfl)
      exact fun _ closed => closed
    · next c here _ _ _ =>
      refine calm_trans (calm_modifyConn ?_) (calm_setPhase here rfl rfl (.inr rfl))
      exact fun _ closed => closed
  · next c here =>
    split
    · exact calm_startWriting here rfl rfl
    · exact calm_refl ch
  · exact calm_refl ch

theorem calm_write (ch : Channel) (n count : Nat) : Calm ch (ch.write n count) := by
  simp only [write]
  split
  · next c rest here =>
    split
    · exact calm_trans (calm_trans (calm_dropIfClosed ch c) (calm_release _ c))
        (calm_setPhase here rfl rfl (.inr rfl))
    · exact calm_setPhase here rfl rfl (.inr rfl)
  · exact calm_refl ch

theorem calm_writeFailed (ch : Channel) (n : Nat) (flaw : TransportFlaw) :
    Calm ch (ch.writeFailed n flaw) := by
  simp only [writeFailed]
  split
  · next here => exact calm_stopWriting here
  · exact calm_refl ch

theorem calm_abort (ch : Channel) (n : Nat) : Calm ch (ch.abort n) := by
  simp only [abort]
  split
  · next here =>
    split
    · exact calm_stopWriting here
    · exact calm_refl ch
  · exact calm_refl ch

theorem calm_resume (ch : Channel) (n : Nat) : Calm ch (ch.resume n) := by
  simp only [resume]
  split
  · next here =>
    refine calm_settle here ?_
    split
    · exact calm_fail here rfl
    · exact calm_refl ch
  · exact calm_refl ch

theorem calm_directDialed (ch : Channel) (n : Nat) (flaw : Option TransportFlaw) :
    Calm ch (ch.directDialed n flaw) := by
  simp only [directDialed]
  split
  · next here =>
    split
    · exact calm_fail here rfl
    · obtain ⟨call, found, phase⟩ := phase?_eq_some.mp here
      exact calm_modifyCall found (by rw [phase]; rfl) rfl (.inl rfl)
  · exact calm_refl ch

theorem calm_directWrite (ch : Channel) (n count : Nat) : Calm ch (ch.directWrite n count) := by
  simp only [directWrite]
  split
  · next here => exact calm_setPhase here rfl rfl (.inl rfl)
  · exact calm_refl ch

theorem calm_directWriteFailed (ch : Channel) (n : Nat) (flaw : TransportFlaw) :
    Calm ch (ch.directWriteFailed n flaw) := by
  simp only [directWriteFailed]
  split
  · next here => exact calm_fail here rfl
  · exact calm_refl ch

theorem calm_directRead (ch : Channel) (n : Nat) (input : DirectInput) :
    Calm ch (ch.directRead n input) := by
  simp only [directRead]
  split
  · next here =>
    split
    · exact calm_fail here rfl
    · exact calm_fail here rfl
    · split
      · exact calm_answer here rfl
      · split
        · exact calm_fail here rfl
        · exact calm_setPhase here rfl rfl (.inl rfl)
  · exact calm_refl ch

/-! ### Moves that the operations of a channel take -/

theorem move_refl (ch : Channel) (event : Event) : Move ch event ch := .calm (calm_refl ch)

theorem move_seek (ch : Channel) (n : Nat) : Move ch (.seek n) (ch.seek n) := by
  simp only [seek]
  split
  · next here free =>
    split
    · next c found => exact .find here free found
    · next none => exact .dial here free none
  · exact move_refl ch _

theorem move_dialed (ch : Channel) (n : Nat) (failure : Option Failure) :
    Move ch (.dialed n failure) (ch.dialed n failure) := by
  simp only [dialed]
  split
  · next here =>
    split
    · exact .hangUp here rfl
    · exact .connect here
  · exact move_refl ch _

theorem move_giveUp (ch : Channel) (n : Nat) : Move ch (.giveUp n) (ch.giveUp n) := by
  simp only [giveUp]
  split
  · next c here => exact .calm (calm_trans (calm_close ch c _) (calm_fail here rfl))
  · next here => exact .giveUp here
  · exact move_refl ch _

theorem move_clear (ch : Channel) (n : Nat) : Move ch (.clear n) (ch.clear n) := by
  simp only [clear]
  split
  · next here _ => exact .clear here (calm_retry here rfl)
  · exact move_refl ch _

theorem move_expire (ch : Channel) (event : Event) (n : Nat) : Move ch event (ch.expire n) := by
  simp only [expire]
  split
  · next here => exact .calm (calm_fail here rfl)
  · next here => exact .calm (calm_fail here rfl)
  · next here => exact .hangUp here rfl
  · next here => exact .calm (calm_settle here (calm_fail here rfl))
  · exact move_refl ch _

theorem move_deadline (ch : Channel) (n : Nat) : Move ch (.deadline n) (ch.deadline n) := by
  simp only [deadline]
  split
  · next c here =>
    split
    · exact move_refl ch _
    · exact .calm (calm_trans (calm_leaveQueue ch c n) (calm_fail here rfl))
  · next c rest here =>
    exact .calm (calm_trans (calm_release ch c) (calm_setPhase here rfl rfl (.inr rfl)))
  · next here => exact .calm (calm_retry here rfl)
  · exact move_expire ch _ n

theorem move_drop (ch : Channel) (n : Nat) : Move ch (.drop n) (ch.drop n) := by
  simp only [drop]
  split
  · next here => exact .calm (calm_finish here rfl rfl)
  · next here => exact .calm (calm_finish here rfl rfl)
  · next here => exact .calm (calm_finish here rfl rfl)
  · next here => exact .calm (calm_finish here rfl rfl)
  · next here => exact .hangUp here rfl
  · next c here =>
    split
    · exact .calm (calm_trans (calm_release ch c) (calm_finish here rfl rfl))
    · exact .calm (calm_trans (calm_leaveQueue ch c n) (calm_finish here rfl rfl))
  · next c rest here => exact .calm (calm_trans (calm_release ch c) (calm_finish here rfl rfl))
  · exact move_refl ch _

/-- Every step is a move: at most one call starts a connection or puts one out of use. -/
theorem step_move (ch : Channel) (event : Event) : Move ch event (ch.step event) := by
  cases event with
  | start request => exact .calm (calm_start ch request)
  | seek n => exact move_seek ch n
  | dialed n failure => exact move_dialed ch n failure
  | enter n => exact .calm (calm_enter ch n)
  | write n count => exact .calm (calm_write ch n count)
  | writeFailed n flaw => exact .calm (calm_writeFailed ch n flaw)
  | abort n => exact .calm (calm_abort ch n)
  | giveUp n => exact move_giveUp ch n
  | clear n => exact move_clear ch n
  | resume n => exact .calm (calm_resume ch n)
  | deadline n => exact move_deadline ch n
  | cancel n => exact move_expire ch _ n
  | drop n => exact move_drop ch n
  | received c bytes => exact .calm (calm_received ch c bytes)
  | decode c => exact .calm (calm_decode ch c)
  | ended c => exact .calm (calm_ended ch c)
  | readerStops c => exact .calm (calm_readerStops ch c)
  | directDialed n flaw => exact .calm (calm_directDialed ch n flaw)
  | directWrite n count => exact .calm (calm_directWrite ch n count)
  | directWriteFailed n flaw => exact .calm (calm_directWriteFailed ch n flaw)
  | directRead n input => exact .calm (calm_directRead ch n input)

end Channel

namespace Move

variable {ch ch' : Channel} {event : Event}

/-- A call starts to connect only when it finds no open connection. -/
theorem dialing {n : Nat} (move : Move ch event ch') (before : ch.phase? n ≠ some .dialing)
    (after : ch'.phase? n = some .dialing) : event = .seek n ∧ ch.open? = none := by
  have kept : ∀ {m old phase}, ch.phase? m = some old →
      (ch.setPhase m phase).phase? n = some .dialing → m = n ∧ phase = .dialing := by
    intro m old phase here dialing
    rw [Channel.phase?_setPhase here] at dialing
    split at dialing
    · next same => exact ⟨same, Option.some.inj dialing⟩
    · exact (before dialing).elim
  cases move with
  | calm calm => exact (before (calm.dialing.mp after)).elim
  | find here free found => cases (kept here after).2
  | dial here free none =>
    obtain ⟨rfl, _⟩ := kept here after
    exact ⟨rfl, none⟩
  | connect here => cases (kept here after).2
  | hangUp here ends =>
    obtain ⟨pending, finished⟩ := Channel.finish_eq { ch with dialer := none } here _
    rw [finished] at after
    rw [(kept here after).2] at ends
    cases ends
  | giveUp here => cases (kept here after).2
  | clear here calm => exact (before (calm.dialing.mp after)).elim

/-- A connection is started only by a call that was connecting, and becomes the current one. -/
theorem started (move : Move ch event ch') (more : ch'.conns.length ≠ ch.conns.length) :
    ∃ n, event = .dialed n none ∧ ch.phase? n = some .dialing ∧
      ch'.current = some ch.conns.length := by
  cases move with
  | calm calm => exact (more calm.length).elim
  | find here free found => exact (more rfl).elim
  | dial here free none => exact (more rfl).elim
  | connect here => exact ⟨_, rfl, here, rfl⟩
  | hangUp here ends =>
    obtain ⟨pending, finished⟩ := Channel.finish_eq { ch with dialer := none } here _
    rw [finished] at more
    exact (more rfl).elim
  | giveUp here => exact (more (Channel.calm_close ch _ _).length).elim
  | clear here calm => exact (more calm.length).elim

end Move
end RpcClient.Multiplex
