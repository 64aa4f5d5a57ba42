import Mathlib.Data.List.Induction
import RpcClient.Proofs.Multiplex.Readers

/-! How connections come to be closed. The first reason is recorded and never changes. -/
namespace RpcClient.Multiplex

/-- What closes connection `c`, and for which reason. -/
inductive Closes (ch : Channel) (c : Nat) : Event → CloseReason → Prop where
  | reader {conn : Connection} {reason : CloseReason} : ch.conns[c]? = some conn →
      conn.reader = .stopping reason → Closes ch c (.readerStops c) reason
  /-- A call has run out of time with part of its frame written. -/
  | expired {n : Nat} : ch.phase? n = some (.expired c) → Closes ch c (.giveUp n) .broken
  /-- A call could not write its frame. -/
  | failed {n : Nat} {failure : Failure} : ch.phase? n = some (.failed c failure) →
      Closes ch c (.giveUp n) .broken

variable {ch : Channel} {n c : Nat} {call : Call} {conn conn' : Connection} {event : Event} {phase : Phase}
  {effect : Effect} {reason : CloseReason}

theorem Fares.closing (fares : Fares ch c conn event conn') (before : ch.conns[c]? = some conn) :
    conn'.closed = conn.closed ∧ conn'.reason = conn.reason ∨
      ∃ reason, Closes ch c event reason ∧ conn'.closed = true ∧
        conn'.reason = (conn.reason <|> some reason) := by
  cases fares with
  | rest => exact .inl ⟨rfl, rfl⟩
  | reader reads =>
    cases reads with
    | stop reader => exact .inr ⟨_, .reader before reader, rfl, rfl⟩
    | _ => exact .inl ⟨rfl, rfl⟩
  | @caller n call phase effect own found stride target =>
    cases effect with
    | close c' =>
      cases target
      refine .inr ⟨.broken, ?_, rfl, rfl⟩
      cases stride with
      | tear here => exact .expired (Channel.phase?_eq_some.mpr ⟨call, found, here⟩)
      | shut here => exact .failed (Channel.phase?_eq_some.mpr ⟨call, found, here⟩)
    | _ => exact .inl ⟨rfl, rfl⟩

theorem Fares.reason_eq (fares : Fares ch c conn event conn') (before : ch.conns[c]? = some conn)
    (first : conn.reason = some reason) : conn'.reason = some reason := by
  obtain ⟨_, same⟩ | ⟨later, _, _, kept⟩ := fares.closing before
  · exact same.trans first
  · rw [kept, first]
    rfl

/-- A connection is closed when a reason is recorded, and not before. -/
theorem Fares.closed_eq (fares : Fares ch c conn event conn') (before : ch.conns[c]? = some conn)
    (known : conn.closed = conn.reason.isSome) : conn'.closed = conn'.reason.isSome := by
  obtain ⟨closed, reason⟩ | ⟨reason, _, closed, first⟩ := fares.closing before
  · rw [closed, reason, known]
  · rw [closed, first]
    cases conn.reason <;> rfl

namespace Channel

theorem closed_eq_run (codec : Codec) (events : List Event) {c : Nat} {conn : Connection}
    (found : ((new codec).run events).conns[c]? = some conn) : conn.closed = conn.reason.isSome := by
  refine List.foldlRecOn (motive := fun ch => ∀ {c conn}, ch.conns[c]? = some conn →
    conn.closed = conn.reason.isSome) events step ?_ ?_ found
  · intro c conn found
    cases found
  intro ch known event _ c conn' found
  obtain ⟨_, rfl⟩ | ⟨conn, before, fares⟩ := step_fares found
  · rfl
  · exact fares.closed_eq before (known before)

theorem isClosed_eq_false : ch.isClosed c = false ↔ ∃ conn, ch.conns[c]? = some conn ∧ conn.closed = false := by
  rw [isClosed]
  cases found : ch.conns[c]? with
  | none => simp
  | some conn => simp

/-- A connection that a step closes has no reason on record before, and that of the step behind it. -/
theorem exists_closes
    (known : ∀ {c : Nat} {conn : Connection}, ch.conns[c]? = some conn → conn.closed = conn.reason.isSome)
    (live : ch.isClosed c = false) (closed : (ch.step event).isClosed c = true) :
    ∃ conn reason, Closes ch c event reason ∧ (ch.step event).conns[c]? = some conn ∧
      conn.closed = true ∧ conn.reason = some reason := by
  obtain ⟨conn, before, alive⟩ := isClosed_eq_false.mp live
  obtain ⟨conn', after, fares⟩ := exists_fares event before
  have silent : conn.reason = none := by
    rw [known before] at alive
    exact Option.not_isSome_iff_eq_none.mp (Bool.eq_false_iff.mp alive)
  obtain ⟨same, _⟩ | ⟨reason, closes, closed', first⟩ := fares.closing before
  · rw [isClosed, after] at closed
    rw [alive] at same
    exact (Bool.false_ne_true (same.symm.trans closed)).elim
  · rw [silent] at first
    exact ⟨conn', reason, closes, after, closed', first⟩

/-- Neither the reason nor the connection itself goes away. -/
theorem reason_run (events : List Event) (before : ch.conns[c]? = some conn)
    (first : conn.reason = some reason) :
    ∃ conn', (ch.run events).conns[c]? = some conn' ∧ conn'.reason = some reason := by
  refine List.foldlRecOn (motive := fun ch => ∃ conn, ch.conns[c]? = some conn ∧ conn.reason = some reason)
    events step ⟨conn, before, first⟩ ?_
  rintro ch ⟨conn, found, first⟩ event _
  obtain ⟨conn', after, fares⟩ := exists_fares event found
  exact ⟨conn', after, fares.reason_eq found first⟩

theorem closed_run (events : List Event) (before : ch.conns[c]? = some conn) (closed : conn.closed = true) :
    ∃ conn', (ch.run events).conns[c]? = some conn' ∧ conn'.closed = true := by
  refine List.foldlRecOn (motive := fun ch => ∃ conn, ch.conns[c]? = some conn ∧ conn.closed = true)
    events step ⟨conn, before, closed⟩ ?_
  rintro ch ⟨conn, found, closed⟩ event _
  obtain ⟨conn', after, fares⟩ := exists_fares event found
  refine ⟨conn', after, ?_⟩
  obtain ⟨same, _⟩ | ⟨_, _, closed', _⟩ := fares.closing found
  · exact same.trans closed
  · exact closed'

theorem run_append (ch : Channel) (events later : List Event) :
    ch.run (events ++ later) = (ch.run events).run later :=
  List.foldl_append

theorem run_concat (ch : Channel) (events : List Event) (event : Event) :
    ch.run (events ++ [event]) = (ch.run events).step event :=
  ch.run_append events [event]

/-- Whatever has come to hold in a run came to hold in one of its steps. -/
theorem exists_turning {codec : Codec} {P : Channel → Prop} (initial : ¬ P (new codec))
    {events : List Event} (now : P ((new codec).run events)) :
    ∃ before event after, events = before ++ event :: after ∧
      ¬ P ((new codec).run before) ∧ P (((new codec).run before).step event) := by
  induction events using List.reverseRecOn with
  | nil => exact (initial now).elim
  | append_singleton events last ih =>
    by_cases earlier : P ((new codec).run events)
    · obtain ⟨before, event, after, rfl, turning⟩ := ih earlier
      exact ⟨before, event, after ++ [last], by simp, turning⟩
    · rw [run_concat] at now
      exact ⟨events, last, [], rfl, earlier, now⟩

/-- A reader closes a connection as malformed only because of what it could not decode. -/
theorem malformed_run {codec : Codec} {events : List Event}
    (found : ((new codec).run events).conns[c]? = some conn) (malformed : conn.reader = .stopping .malformed) :
    ∃ before after error rest, events = before ++ .decode c :: after ∧
      ((new codec).run before).decoded? c = some (.failed error rest) := by
  obtain ⟨before, event, after, rfl, sound, conn', found', malformed'⟩ :=
    exists_turning (P := fun ch => ∃ conn, ch.conns[c]? = some conn ∧ conn.reader = .stopping .malformed)
      (by rintro ⟨conn, found, _⟩; cases found) ⟨conn, found, malformed⟩
  obtain ⟨_, rfl⟩ | ⟨conn, place, fares⟩ := step_fares found'
  · cases malformed'
  have earlier : conn.reader ≠ .stopping .malformed := fun same => sound ⟨conn, place, same⟩
  cases fares with
  | rest => exact (earlier malformed').elim
  | reader reads =>
    cases reads with
    | refuse decoding failed =>
      exact ⟨before, after, _, _, rfl, decoded?_eq_some.mpr ⟨conn, place, decoding, failed⟩⟩
    | take => exact (earlier malformed').elim
    | _ => cases malformed'
  | @caller n call phase effect =>
    cases effect <;> exact (earlier malformed').elim

end Channel

theorem History.closed_eq_ofRun {codec : Codec} {events : List Event}
    (found : (ofRun codec events).channel.conns[c]? = some conn) : conn.closed = conn.reason.isSome := by
  rw [channel_ofRun] at found
  exact Channel.closed_eq_run codec events found

end RpcClient.Multiplex
