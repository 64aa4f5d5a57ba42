import RpcClient.Codec
import RpcClient.Proofs.Bolt.Packet

/-! Frames out of a stream. What decoding has decided, more bytes do not change, so it does not
matter in which chunks the bytes of a stream arrive. -/
namespace RpcClient

variable {buffer rest : Bytes} {frame : Frame} {error : WireError}

/-- The same result with more bytes behind what is left. -/
def Decoded.extend (more : Bytes) : Decoded → Decoded
  | .incomplete => .incomplete
  | .frame frame rest => .frame frame (rest ++ more)
  | .failed error rest => .failed error (rest ++ more)

namespace Bolt

theorem decode_append {version : Version} (decided : decode version buffer ≠ .incomplete)
    (more : Bytes) :
    decode version (buffer ++ more) = (decode version buffer).extend more := by
  obtain waits | ⟨error, failed⟩ | ⟨p, rest, valid, rfl⟩ := decode_cases version buffer
  · exact absurd waits decided
  · have stopped := failed []
    rw [List.append_nil] at stopped
    rw [failed, stopped]
    rfl
  · rw [List.append_assoc, Packet.decode_bytes valid, Packet.decode_bytes valid]
    cases p.frame? <;> rfl

theorem length_lt_of_decode {version : Version} (taken : decode version buffer = .frame frame rest) :
    rest.length < buffer.length := by
  obtain ⟨p, -, -, rfl⟩ := exists_packet taken
  obtain ⟨behind, cons⟩ := p.exists_bytes_append_eq_cons version []
  have size := congrArg List.length cons
  rw [List.append_nil, List.length_cons] at size
  rw [List.length_append]
  omega

end Bolt

namespace Dubbo

theorem readFrame_append (inside : headerSize ≤ buffer.length) (more body : Bytes) :
    readFrame (buffer ++ more) body = readFrame buffer body := by
  rw [headerSize] at inside
  rw [readFrame, readFrame, Bytes.numberAt_append (by omega), Bytes.numberAt_append (by omega),
    Bytes.numberAt_append (by omega)]

theorem decode_append (decided : decode buffer ≠ .incomplete) (more : Bytes) :
    decode (buffer ++ more) = (decode buffer).extend more := by
  cases start : Bytes.dropExactly 2 buffer with
  | none =>
    rw [decode, start] at decided
    exact absurd rfl decided
  | some behind =>
  have two := Bytes.length_of_dropExactly start
  have start' := Bytes.dropExactly_append_of_eq_some start more
  have number : Bytes.numberAt (buffer ++ more) 0 2 = Bytes.numberAt buffer 0 2 :=
    Bytes.numberAt_append (by omega) more
  by_cases other : Bytes.numberAt buffer 0 2 ≠ magic.toNat
  · simp only [decode, start, start', number, if_pos other, Decoded.extend]
  cases cut : Bytes.dropExactly headerSize buffer with
  | none =>
    simp only [decode, start, other, cut, if_false, ne_eq, not_true] at decided
  | some parts =>
  have sixteen := Bytes.length_of_dropExactly cut
  have inside : headerSize ≤ buffer.length := by omega
  have cut' := Bytes.dropExactly_append_of_eq_some cut more
  have size : Bytes.numberAt (buffer ++ more) 12 4 = Bytes.numberAt buffer 12 4 :=
    Bytes.numberAt_append inside more
  cases small : Frame.checkSize (headerSize + Bytes.numberAt buffer 12 4) with
  | error error =>
    simp only [decode, start, start', number, other, cut, cut', size, small, if_false, Decoded.extend]
  | ok =>
  cases whole : Bytes.dropExactly (Bytes.numberAt buffer 12 4) parts with
  | none =>
    simp only [decode, start, other, cut, small, whole, if_false, ne_eq, not_true] at decided
  | some rest =>
    have whole' := Bytes.dropExactly_append_of_eq_some whole more
    have enough := Bytes.length_of_dropExactly whole
    have body : (parts ++ more).take (Bytes.numberAt buffer 12 4) =
        parts.take (Bytes.numberAt buffer 12 4) := List.take_append_of_le_length (by omega)
    simp only [decode, start, start', number, other, cut, cut', size, small, whole, whole', body,
      readFrame_append inside, if_false, Decoded.extend]

theorem length_lt_of_decode (taken : decode buffer = .frame frame rest) :
    rest.length < buffer.length := by
  rw [decode] at taken
  split at taken
  · cases taken
  dsimp only at taken
  split at taken
  · cases taken
  split at taken
  · cases taken
  next parts cut =>
  split at taken
  · cases taken
  split at taken
  · cases taken
  next rest' whole =>
  cases taken
  have sixteen := Bytes.length_of_dropExactly cut
  have enough := Bytes.length_of_dropExactly whole
  rw [headerSize] at sixteen
  omega

end Dubbo

namespace Codec

variable {codec : Codec}

theorem decode_append (decided : codec.decode buffer ≠ .incomplete) (more : Bytes) :
    codec.decode (buffer ++ more) = (codec.decode buffer).extend more := by
  cases codec with
  | bolt version className => exact Bolt.decode_append decided more
  | dubbo => exact Dubbo.decode_append decided more

theorem length_lt_of_decode (taken : codec.decode buffer = .frame frame rest) :
    rest.length < buffer.length := by
  cases codec with
  | bolt version className => exact Bolt.length_lt_of_decode taken
  | dubbo => exact Dubbo.length_lt_of_decode taken

/-! ### Draining -/

/-- Induction along the frames of a buffer. -/
theorem drain_induct (codec : Codec) {motive : Bytes → Prop}
    (incomplete : ∀ buffer, codec.decode buffer = .incomplete → motive buffer)
    (failed : ∀ buffer error rest, codec.decode buffer = .failed error rest → motive buffer)
    (frame : ∀ buffer frame rest, codec.decode buffer = .frame frame rest → motive rest → motive buffer)
    (buffer : Bytes) : motive buffer := by
  cases result : codec.decode buffer with
  | incomplete => exact incomplete buffer result
  | failed error rest => exact failed buffer error rest result
  | frame f rest =>
    have shorter := length_lt_of_decode result
    exact frame buffer f rest result (drain_induct codec incomplete failed frame rest)
termination_by buffer.length

/-- What a buffer holds behind frames that were taken off before. -/
def Drained.behind (frames : List Frame) (drained : Drained) : Drained :=
  { drained with frames := frames ++ drained.frames }

theorem Drained.behind_behind (first second : List Frame) (drained : Drained) :
    (drained.behind second).behind first = drained.behind (first ++ second) := by
  rw [behind, behind, behind, List.append_assoc]

theorem drain_of_incomplete (waits : codec.decode buffer = .incomplete) :
    codec.drain buffer = ⟨[], none, buffer⟩ := by
  rw [drain, drainWithin, waits]
  rfl

theorem drain_of_failed (failed : codec.decode buffer = .failed error rest) :
    codec.drain buffer = ⟨[], some error, rest⟩ := by
  rw [drain, drainWithin, failed]
  rfl

/-- Every frame takes bytes, so fuel beyond the number of bytes does not matter. -/
theorem drainWithin_eq (codec : Codec) (buffer : Bytes) :
    ∀ fuel frames, buffer.length < fuel →
      codec.drainWithin fuel frames buffer = (codec.drain buffer).behind frames.reverse := by
  induction buffer using drain_induct codec with
  | incomplete buffer waits =>
    rintro (_ | fuel) frames enough
    · cases enough
    rw [drainWithin, waits, drain_of_incomplete waits, Drained.behind, List.append_nil]
  | failed buffer error rest failed =>
    rintro (_ | fuel) frames enough
    · cases enough
    rw [drainWithin, failed, drain_of_failed failed, Drained.behind, List.append_nil]
  | frame buffer frame rest taken ih =>
    have shorter := length_lt_of_decode taken
    rintro (_ | fuel) frames enough
    · cases enough
    -- both sides take the frame, each with its own fuel for the rest
    rw [drain, drainWithin, drainWithin, taken]
    dsimp only
    rw [ih fuel _ (by omega), ih buffer.length _ shorter, Drained.behind_behind, List.reverse_cons]
    rfl

theorem drain_of_frame (taken : codec.decode buffer = .frame frame rest) :
    codec.drain buffer = (codec.drain rest).behind [frame] := by
  rw [drain, drainWithin, taken]
  exact drainWithin_eq codec rest buffer.length [frame] (length_lt_of_decode taken)

/-! ### Chunks -/

/-- Bytes that arrive behind what was drained. Nothing is taken off behind an error. -/
def Drained.feed (codec : Codec) (drained : Drained) (chunk : Bytes) : Drained :=
  match drained.error with
  | some _ => drained
  | none => (codec.drain (drained.rest ++ chunk)).behind drained.frames

/-- Bytes that arrive in chunks, drained after each. -/
def feedAll (codec : Codec) (chunks : List Bytes) : Drained :=
  chunks.foldl (Drained.feed codec) ⟨[], none, []⟩

/-- The same frames and error, and without an error the same rest. -/
structure Drained.Agrees (drained other : Drained) : Prop where
  frames : drained.frames = other.frames
  error : drained.error = other.error
  rest : other.error = none → drained.rest = other.rest

namespace Drained

variable {drained other last : Drained}

theorem Agrees.trans (first : drained.Agrees other) (second : other.Agrees last) :
    drained.Agrees last := by
  refine ⟨first.frames.trans second.frames, first.error.trans second.error, ?_⟩
  intro success
  have success' : other.error = none := second.error.trans success
  exact (first.rest success').trans (second.rest success)

theorem Agrees.behind (agrees : drained.Agrees other) (frames : List Frame) :
    (drained.behind frames).Agrees (other.behind frames) :=
  ⟨congrArg (frames ++ ·) agrees.frames, agrees.error, agrees.rest⟩

theorem Agrees.feed (agrees : drained.Agrees other) (codec : Codec) (chunk : Bytes) :
    (drained.feed codec chunk).Agrees (other.feed codec chunk) := by
  cases result : other.error with
  | some error =>
    rw [Drained.feed, Drained.feed, agrees.error, result]
    exact agrees
  | none =>
    rw [Drained.feed, Drained.feed, agrees.error, result, agrees.rest result, agrees.frames]
    exact ⟨rfl, rfl, fun _ => rfl⟩

theorem feed_behind (codec : Codec) (frames : List Frame) (drained : Drained) (chunk : Bytes) :
    (drained.behind frames).feed codec chunk = (drained.feed codec chunk).behind frames := by
  cases result : drained.error with
  | some error =>
    have result' : (drained.behind frames).error = some error := result
    rw [feed, feed, result, result']
  | none =>
    have result' : (drained.behind frames).error = none := result
    rw [feed, feed, result, result']
    exact (behind_behind frames drained.frames _).symm

end Drained

/-- Draining is feeding the last bytes to what the first ones left. -/
theorem drain_append (codec : Codec) (buffer more : Bytes) :
    ((codec.drain buffer).feed codec more).Agrees (codec.drain (buffer ++ more)) := by
  induction buffer using drain_induct codec with
  | incomplete buffer waits =>
    rw [drain_of_incomplete waits]
    exact ⟨rfl, rfl, fun _ => rfl⟩
  | failed buffer error rest failed =>
    have decided : codec.decode buffer ≠ .incomplete := by
      rw [failed]
      exact Decoded.noConfusion
    have failed' := decode_append decided more
    rw [failed, Decoded.extend] at failed'
    rw [drain_of_failed failed, drain_of_failed failed']
    refine ⟨rfl, rfl, ?_⟩
    intro success
    cases success
  | frame buffer frame rest taken ih =>
    have decided : codec.decode buffer ≠ .incomplete := by
      rw [taken]
      exact Decoded.noConfusion
    have taken' := decode_append decided more
    rw [taken, Decoded.extend] at taken'
    rw [drain_of_frame taken, drain_of_frame taken', Drained.feed_behind]
    exact ih.behind [frame]

theorem foldl_feed (codec : Codec) (chunks : List Bytes) {drained : Drained} {buffer : Bytes}
    (agrees : drained.Agrees (codec.drain buffer)) :
    (chunks.foldl (Drained.feed codec) drained).Agrees (codec.drain (buffer ++ chunks.flatten)) := by
  induction chunks generalizing drained buffer with
  | nil =>
    rw [List.flatten_nil, List.append_nil]
    exact agrees
  | cons chunk chunks ih =>
    rw [List.flatten_cons, ← List.append_assoc]
    exact ih ((agrees.feed codec chunk).trans (drain_append codec buffer chunk))

/-- It does not matter in which chunks a stream arrives: they give the frames and the first error of
the whole stream, and without an error leave the same bytes. -/
theorem chunks_agree_with_stream (codec : Codec) (chunks : List Bytes) :
    (codec.feedAll chunks).frames = (codec.drain chunks.flatten).frames ∧
    (codec.feedAll chunks).error = (codec.drain chunks.flatten).error ∧
    ((codec.drain chunks.flatten).error = none →
      (codec.feedAll chunks).rest = (codec.drain chunks.flatten).rest) := by
  have nothing : codec.decode [] = .incomplete := by cases codec <;> rfl
  have start : Drained.Agrees ⟨[], none, []⟩ (codec.drain []) := by
    rw [drain_of_incomplete nothing]
    exact ⟨rfl, rfl, fun _ => rfl⟩
  obtain ⟨frames, error, rest⟩ := foldl_feed codec chunks start
  exact ⟨frames, error, rest⟩

theorem reply_in_pieces_then_garbage :
    (feedAll (.bolt .v1 "") [[1, 0, 0, 2, 1, 0, 0], [], [0, 5, 1, 0, 7, 0, 0, 0, 0, 0, 0, 0],
      [1, 42, 9], [1, 0]]).frames = [⟨.response, 5, 0, "", 7, 1, [], [42]⟩] ∧
    (feedAll (.bolt .v1 "") [[1, 0, 0, 2, 1, 0, 0], [], [0, 5, 1, 0, 7, 0, 0, 0, 0, 0, 0, 0],
      [1, 42, 9], [1, 0]]).error = some (.unknownProtocol 9) ∧
    (feedAll .dubbo [[0xda], [0xbb, 0x20]]).rest = [0xda, 0xbb, 0x20] := by
  obtain ⟨frames, error, -⟩ := chunks_agree_with_stream (.bolt .v1 "") [[1, 0, 0, 2, 1, 0, 0], [],
    [0, 5, 1, 0, 7, 0, 0, 0, 0, 0, 0, 0], [1, 42, 9], [1, 0]]
  obtain ⟨-, -, rest⟩ := chunks_agree_with_stream .dubbo [[0xda], [0xbb, 0x20]]
  refine ⟨frames.trans ?_, error.trans ?_, (rest ?_).trans ?_⟩
  all_goals decide +kernel

end Codec
end RpcClient
