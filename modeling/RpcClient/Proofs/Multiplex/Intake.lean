import RpcClient.Proofs.Codec.Consumption
import RpcClient.Proofs.Multiplex.Readers

/-! What readers keep. A reader that waits for more bytes holds fewer than the largest frame has, so it never
takes in that many without coming to a frame or an error. -/
namespace RpcClient.Multiplex

theorem Effect.touch_reader (n : Nat) (conn : Connection) (effect : Effect) :
    (effect.touch n conn).reader = conn.reader ∧ (effect.touch n conn).buffer = conn.buffer := by
  cases effect <;> exact ⟨rfl, rfl⟩

/-- The readers that wait for more bytes keep short buffers. -/
def Moderate (ch : Channel) : Prop :=
  ∀ ⦃c : Nat⦄ ⦃conn : Connection⦄, ch.conns[c]? = some conn → conn.reader = .reading →
    conn.buffer.length < Frame.maxSize

namespace Channel

variable {ch : Channel}

theorem moderate_step (moderate : Moderate ch) (event : Event) : Moderate (ch.step event) := by
  intro c conn' place waits
  obtain ⟨_, rfl⟩ | ⟨conn, before, fares⟩ := step_fares place
  · decide
  cases fares with
  | rest => exact moderate before waits
  | reader reads =>
    cases reads with
    | incomplete _ short =>
      have outcome := ch.codec.outcome conn.buffer
      rw [short] at outcome
      cases outcome with
      | waits short => exact short
    | take decoding => cases decoding.symm.trans waits
    | receive | refuse | finish | stop | quit => cases waits
  | caller _ _ _ _ =>
    rw [(Effect.touch_reader _ conn _).1] at waits
    rw [(Effect.touch_reader _ conn _).2]
    exact moderate before waits

theorem moderate_run (codec : Codec) (events : List Event) :
    Moderate ((Channel.new codec).run events) := by
  refine List.foldlRecOn events step ?_ fun ch moderate event _ => moderate_step moderate event
  intro c conn place
  cases place

/-- A call with a connection of its own keeps what draining leaves. -/
theorem directRead_keeps {n : Nat} {bytes buffer : Bytes} {address : String}
    (after : (ch.directRead n (.bytes bytes)).phase? n = some (.direct address (.reading buffer))) :
    buffer.length < Frame.maxSize := by
  have ended : ∀ {old phase : Phase}, ch.phase? n = some old → phase.isEnded = true →
      (ch.finish n phase).phase? n ≠ some (.direct address (.reading buffer)) := by
    intro old phase here ends goesOn
    rw [Option.some.inj ((phase?_finish here phase).symm.trans goesOn)] at ends
    cases ends
  simp only [directRead] at after
  split at after
  next held here =>
    split at after
    next => exact (ended here rfl after).elim
    split at after
    next => exact (ended here rfl after).elim
    next success =>
      rw [phase?_setPhase here, if_pos rfl] at after
      cases after
      exact (ch.codec.drains _).rest_lt success
  next other => exact (other _ _ after).elim

end Channel

/-- How a codec and the readers that use it deal with the bytes of a buffer. -/
structure Disciplined (codec : Codec) : Prop where
  outcome : ∀ buffer, codec.Outcome buffer (codec.decode buffer)
  /-- No access leaves the buffer. -/
  checked : ∀ buffer, codec.decode? buffer = some (codec.decode buffer)
  /-- Draining comes to an end, and there is one way only. -/
  drains : ∀ buffer drained, codec.Drains buffer drained ↔ drained = codec.drain buffer
  shrinks : ∀ buffer,
    16 * (codec.drain buffer).frames.length + (codec.drain buffer).rest.length ≤ buffer.length
  /-- What is left behind chunks that gave no error. -/
  kept : ∀ chunks, (codec.feedAll chunks).error = none →
    (codec.feedAll chunks).rest.length < Frame.maxSize
  readers : ∀ events, Moderate ((Channel.new codec).run events)
  /-- What a call with a connection of its own keeps. -/
  direct : ∀ (ch : Channel) (n : Nat) (bytes buffer : Bytes) (address : String), ch.codec = codec →
    (ch.directRead n (.bytes bytes)).phase? n = some (.direct address (.reading buffer)) →
    buffer.length < Frame.maxSize

/-- Decoding is disciplined. -/
theorem disciplined (codec : Codec) : Disciplined codec where
  outcome := codec.outcome
  checked := codec.decode?_eq
  drains buffer _ := ⟨Codec.Drains.eq_drain, fun same => same ▸ codec.drains buffer⟩
  shrinks buffer := (codec.drains buffer).length_le
  kept := codec.rest_lt_of_feedAll
  readers := Channel.moderate_run codec
  direct _ _ _ _ _ _ after := Channel.directRead_keeps after

end RpcClient.Multiplex
