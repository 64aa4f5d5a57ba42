import RpcClient.Proofs.Multiplex.Moves

/-! At most one connection is open at a time, and it is the one that calls use. Only a call that has
found every connection closed connects, and while it does so no other call can. -/
namespace RpcClient.Multiplex

/-- Only the current connection may be open, and none is while a call connects. -/
structure OneLine (ch : Channel) : Prop where
  current : ∀ {c}, ch.isClosed c = false → ch.current = some c
  dialer : ∀ {n}, ch.dialer = some n ↔ ch.phase? n = some .dialing
  quiet : ∀ {n}, ch.dialer = some n → ∀ c, ch.isClosed c = true
  started : ∀ {n c}, ch.conn? n = some c → c < ch.conns.length
  cleared : ∀ {n c failure}, ch.phase? n = some (.clearing c failure) → ch.isClosed c = true

variable {ch ch' : Channel} {n c : Nat}

theorem Channel.isClosed_of_length_le (beyond : ch.conns.length ≤ c) : ch.isClosed c = true := by
  rw [isClosed, List.getElem?_eq_none beyond]
  rfl

theorem Channel.isClosed_append (conns : ch'.conns = ch.conns ++ [.fresh]) :
    ch'.isClosed c = if c = ch.conns.length then false else ch.isClosed c := by
  rw [isClosed, conns, isClosed, getElem?_concat]
  split
  · rfl
  · rfl

theorem Channel.isClosed_close (ch : Channel) (c : Nat) (reason : CloseReason) :
    (ch.close c reason).isClosed c = true := by
  rw [isClosed, close, modifyConn, List.getElem?_modify_eq]
  cases ch.conns[c]? <;> rfl

/-- If no connection is found open, there is none. -/
theorem OneLine.isClosed_of_open?_eq_none (line : OneLine ch) (none : ch.open? = none) (c : Nat) :
    ch.isClosed c = true := by
  cases closed : ch.isClosed c with
  | true => rfl
  | false =>
    rw [Channel.open?, line.current closed, Option.filter_some, closed] at none
    cases none

theorem Channel.open?_eq_some : ch.open? = some c ↔ ch.current = some c ∧ ch.isClosed c = false := by
  simp only [open?, Option.filter_eq_some_iff, Bool.not_eq_true']

namespace OneLine

theorem calm (line : OneLine ch) (calm : Calm ch ch') : OneLine ch' where
  current := by
    intro c live
    rw [calm.current]
    apply line.current
    rw [← Bool.not_eq_true]
    intro closed
    rw [calm.closed closed] at live
    cases live
  dialer := by
    intro n
    rw [calm.dialer, calm.dialing]
    exact line.dialer
  quiet := by
    intro n dialing c
    exact calm.closed (line.quiet (calm.dialer ▸ dialing) c)
  started := by
    intro n c here
    rw [calm.length]
    exact line.started (calm.conn? here)
  cleared := fun here => calm.closed (line.cleared (calm.clearing here))

/-- One call goes to another phase, while connections may be started or closed. -/
theorem moved {phase : Phase} (line : OneLine ch)
    (phases : ∀ m, ch'.phase? m = if n = m then some phase else ch.phase? m)
    (current : ∀ {c}, ch'.isClosed c = false → ch'.current = some c)
    (dialer : ∀ m, ch'.dialer = some m ↔ if n = m then phase = .dialing else ch.dialer = some m)
    (quiet : ∀ {m}, ch'.dialer = some m → ∀ c, ch'.isClosed c = true)
    (kept : ∀ {c}, c < ch.conns.length →
      c < ch'.conns.length ∧ (ch.isClosed c = true → ch'.isClosed c = true))
    (started : ∀ {c}, phase.conn? = some c → c < ch'.conns.length)
    (cleared : ∀ {c failure}, phase = .clearing c failure → ch'.isClosed c = true) : OneLine ch' where
  current := current
  dialer := by
    intro m
    rw [dialer, phases]
    split
    · rw [Option.some.injEq]
    · exact line.dialer
  quiet := quiet
  started := by
    intro m c conn
    rw [Channel.conn?, phases] at conn
    split at conn
    · exact started conn
    · exact (kept (line.started conn)).1
  cleared := by
    intro m c failure clearing
    rw [phases] at clearing
    split at clearing
    · exact cleared (Option.some.inj clearing)
    · have known : ch.conn? m = some c := by rw [Channel.conn?, clearing]; rfl
      exact (kept (line.started known)).2 (line.cleared clearing)

/-- No other call connects while one does. -/
theorem dialer_eq {m : Nat} (line : OneLine ch) (here : ch.phase? n = some .dialing)
    (other : ch.dialer = some m) : n = m :=
  Option.some.inj ((line.dialer.mpr here).symm.trans other)

theorem setPhase {old phase : Phase} (line : OneLine ch) (here : ch.phase? n = some old)
    (before : old ≠ .dialing) (after : phase ≠ .dialing)
    (started : ∀ {c}, phase.conn? = some c → c < ch.conns.length)
    (cleared : ∀ {c failure}, phase = .clearing c failure → ch.isClosed c = true) :
    OneLine (ch.setPhase n phase) := by
  refine line.moved (Channel.phase?_setPhase here) line.current ?_ line.quiet ?_ started cleared
  · intro m
    rw [show (ch.setPhase n phase).dialer = ch.dialer from rfl]
    split
    · next same =>
      subst same
      rw [line.dialer, here, Option.some.injEq]
      exact ⟨fun dialing => (before dialing).elim, fun dialing => (after dialing).elim⟩
    · exact Iff.rfl
  · exact fun bound => ⟨bound, id⟩

theorem find (line : OneLine ch) (here : ch.phase? n = some .seeking) (found : ch.open? = some c) :
    OneLine (ch.setPhase n (.entering c)) := by
  obtain ⟨_, live⟩ := Channel.open?_eq_some.mp found
  refine line.setPhase here nofun nofun ?_ nofun
  rintro c' ⟨⟩
  refine Nat.lt_of_not_le fun beyond => ?_
  rw [Channel.isClosed_of_length_le beyond] at live
  cases live

theorem dial (line : OneLine ch) (here : ch.phase? n = some .seeking) (free : ch.dialer = none)
    (none : ch.open? = none) : OneLine { ch.setPhase n .dialing with dialer := some n } := by
  refine line.moved (Channel.phase?_setPhase here) line.current ?_
    (fun _ => line.isClosed_of_open?_eq_none none) (fun bound => ⟨bound, id⟩) nofun nofun
  intro m
  rw [free, Option.some.injEq]
  split
  · next same => exact ⟨fun _ => rfl, fun _ => same⟩
  · next other => exact ⟨fun same => (other same).elim, nofun⟩

theorem connect (line : OneLine ch) (here : ch.phase? n = some .dialing) :
    OneLine { ch.setPhase n (.entering ch.conns.length) with
      dialer := none, conns := ch.conns ++ [.fresh], current := some ch.conns.length } := by
  have closed : ∀ c, ch.isClosed c = true := line.quiet (line.dialer.mpr here)
  refine line.moved (Channel.phase?_setPhase here) ?_ ?_ nofun ?_ ?_ nofun
  · intro c live
    rw [Channel.isClosed_append rfl] at live
    split at live
    · next last => rw [last]
    · rw [closed] at live
      cases live
  · intro m
    split
    · exact ⟨nofun, nofun⟩
    · next other => exact ⟨nofun, fun same => (other (line.dialer_eq here same)).elim⟩
  · intro c bound
    refine ⟨by simp; omega, fun gone => ?_⟩
    rw [Channel.isClosed_append rfl, if_neg (Nat.ne_of_lt bound)]
    exact gone
  · intro c same
    obtain rfl := Option.some.inj same
    simp

theorem hangUp {phase : Phase} (line : OneLine ch) (here : ch.phase? n = some .dialing)
    (ends : phase.isEnded = true) : OneLine ({ ch with dialer := none }.finish n phase) := by
  obtain ⟨pending, finished⟩ := Channel.finish_eq { ch with dialer := none } here phase
  rw [finished]
  refine line.moved (Channel.phase?_setPhase here) line.current ?_ nofun (fun bound => ⟨bound, id⟩) ?_ ?_
  · intro m
    split
    · refine ⟨nofun, fun dialing => ?_⟩
      rw [dialing] at ends
      cases ends
    · next other => exact ⟨nofun, fun same => (other (line.dialer_eq here same)).elim⟩
  · intro c conn
    rw [Phase.conn?_of_isEnded ends] at conn
    cases conn
  · rintro c failure rfl
    cases ends

theorem giveUp {failure : Failure} (line : OneLine ch) (here : ch.phase? n = some (.failed c failure)) :
    OneLine ((ch.close c .broken).setPhase n (.clearing c failure)) := by
  have closed := line.calm (Channel.calm_close ch c .broken)
  refine closed.setPhase here nofun nofun ?_ ?_
  · rintro c' ⟨⟩
    refine closed.started (n := n) ?_
    rw [Channel.conn?, show (ch.close c .broken).phase? n = _ from here]
    rfl
  · rintro c' failure' ⟨⟩
    exact Channel.isClosed_close ch c .broken

theorem clear {failure : Failure} (line : OneLine ch)
    (here : ch.phase? n = some (.clearing c failure)) :
    OneLine { ch with current := ch.current.filter (· != c) } := by
  have closed := line.cleared here
  refine ⟨?_, line.dialer, line.quiet, line.started, line.cleared⟩
  intro c' live
  have other : c' ≠ c := by
    rintro rfl
    rw [show ch.isClosed c' = false from live] at closed
    cases closed
  rw [line.current live, Option.filter_some, if_pos (bne_iff_ne.mpr other)]

theorem move {event : Event} (line : OneLine ch) (move : Move ch event ch') : OneLine ch' := by
  cases move with
  | calm calm => exact line.calm calm
  | find here free found => exact line.find here found
  | dial here free none => exact line.dial here free none
  | connect here => exact line.connect here
  | hangUp here ends => exact line.hangUp here ends
  | giveUp here => exact line.giveUp here
  | clear here calm => exact (line.clear here).calm calm

theorem new (codec : Codec) : OneLine (.new codec) :=
  ⟨nofun, ⟨nofun, nofun⟩, nofun, nofun, nofun⟩

theorem run (codec : Codec) (events : List Event) : OneLine ((Channel.new codec).run events) :=
  List.foldlRecOn events Channel.step (new codec) fun ch line event _ => line.move (ch.step_move event)

end OneLine

/-- Connections and calls that start or clear them do not get in each other's way. -/
structure Exclusive (ch : Channel) : Prop where
  unique : ∀ {c c'}, ch.isClosed c = false → ch.isClosed c' = false → c = c'
  current : ∀ {c}, ch.isClosed c = false → ch.current = some c
  /-- A call that finds a connection open uses it, and does not connect. -/
  found : ∀ {n c}, ch.isClosed c = false → ch.phase? n = some .seeking →
    ch.step (.seek n) = ch.setPhase n (.entering c)
  /-- A call starts to connect only when it looks for a connection and all of them are closed. -/
  dials : ∀ {event n}, ch.phase? n ≠ some .dialing → (ch.step event).phase? n = some .dialing →
    event = .seek n ∧ ∀ c, ch.isClosed c = true
  /-- A connection is started only by a call that was connecting, when all others are closed, and
  becomes the current one. -/
  starts : ∀ {event}, (ch.step event).conns.length ≠ ch.conns.length →
    (∃ n, event = .dialed n none ∧ ch.phase? n = some .dialing) ∧ (∀ c, ch.isClosed c = true) ∧
      (ch.step event).current = some ch.conns.length
  /-- Only the call that connects keeps others from connecting. -/
  dialer : ∀ {n}, ch.dialer = some n ↔ ch.phase? n = some .dialing
  /-- A call that takes a closed connection out of use leaves its replacement alone. -/
  stale : ∀ {n c c' failure}, ch.phase? n = some (.clearing c failure) → ch.current = some c' → c' ≠ c →
    (ch.step (.clear n)).current = some c' ∧ (ch.step (.clear n)).conns = ch.conns

/-- In every run at most one connection is open, and calls that look for one share it. -/
theorem exclusive_run (codec : Codec) (events : List Event) :
    Exclusive ((Channel.new codec).run events) := by
  have line := OneLine.run codec events
  generalize (Channel.new codec).run events = ch at line
  refine ⟨?_, line.current, ?_, ?_, ?_, line.dialer, ?_⟩
  · intro c c' live live'
    exact Option.some.inj ((line.current live).symm.trans (line.current live'))
  · intro n c live here
    have free : ch.dialer = none := by
      rw [Option.eq_none_iff_forall_ne_some]
      intro m dialing
      rw [line.quiet dialing c] at live
      cases live
    have found : ch.open? = some c := Channel.open?_eq_some.mpr ⟨line.current live, live⟩
    simp only [Channel.step, Channel.seek, here, free, found]
  · intro event n before after
    obtain ⟨seeks, none⟩ := (ch.step_move event).dialing before after
    exact ⟨seeks, line.isClosed_of_open?_eq_none none⟩
  · intro event more
    obtain ⟨n, connects, here, current⟩ := (ch.step_move event).started more
    exact ⟨⟨n, connects, here⟩, line.quiet (line.dialer.mpr here), current⟩
  · intro n c c' failure here current other
    simp only [Channel.step, Channel.clear, here]
    split
    · next clearing _ =>
      obtain ⟨rfl, rfl⟩ := Phase.clearing.inj (Option.some.inj clearing)
      refine ⟨?_, Channel.conns_retry _ _ _⟩
      have kept : Calm { ch with current := ch.current.filter (· != c) }
          ({ ch with current := ch.current.filter (· != c) }.retry n failure) :=
        Channel.calm_retry here rfl
      rw [kept.current, current, Option.filter_some, if_pos (bne_iff_ne.mpr other)]
    · exact ⟨current, rfl⟩

/-- The first call clears its connection after the second one has replaced it. -/
example :
    ((Channel.new (.bolt .v1 "")).run
      [.start {}, .start {}, .seek 0, .dialed 0 none, .enter 0, .ended 0, .readerStops 0, .abort 0,
        .giveUp 0, .seek 1, .dialed 1 none, .clear 0]).current = some 1 := rfl

end RpcClient.Multiplex
