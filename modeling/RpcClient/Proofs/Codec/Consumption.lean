import RpcClient.Proofs.Codec.Checked

/-! What decoding takes off a buffer. It waits on short buffers only, takes frames as a whole, spoilt ones too,
and leaves the buffer as it is where it cannot tell how long the frame is. So draining ends, and what it leaves
without an error is short. -/
namespace RpcClient

variable {buffer : Bytes}

/-- The errors of a class name or a header block that cannot be read. -/
inductive WireError.IsSpoilt : WireError → Prop where
  | className : IsSpoilt (.invalidFrameHeader .classNotText)
  | truncatedLength {part : String} : part ∈ ["header key", "header value"] →
      IsSpoilt (.invalidFrameHeader (.truncatedLength part))
  | truncated {part : String} : part ∈ ["header key", "header value"] →
      IsSpoilt (.invalidFrameHeader (.truncated part))
  | notText {part : String} : part ∈ ["header key", "header value"] →
      IsSpoilt (.invalidFrameHeader (.notText part))

namespace Bolt

variable {version : Version} {error : WireError}

theorem isSpoilt_of_takeText {part : String} {block : Bytes} (known : part ∈ ["header key", "header value"])
    (failed : takeText part block = .error error) : error.IsSpoilt := by
  rw [takeText] at failed
  split at failed
  · cases failed
    exact .truncatedLength known
  dsimp only at failed
  split at failed
  · cases failed
    exact .truncated known
  split at failed
  · cases failed
    exact .notText known
  · cases failed

theorem isSpoilt_of_decodeHeadersWithin {fuel : Nat} {headers : List (String × String)} {block : Bytes}
    (failed : decodeHeadersWithin fuel headers block = .error error) : error.IsSpoilt := by
  induction fuel generalizing headers block with
  | zero => cases failed
  | succ fuel ih =>
    rw [decodeHeadersWithin] at failed
    split at failed
    · cases failed
    cases key : takeText "header key" block with
    | error error =>
      rw [key] at failed
      cases failed
      exact isSpoilt_of_takeText (by simp) key
    | ok taken =>
      rw [key] at failed
      cases value : takeText "header value" taken.2 with
      | error error =>
        simp only [bind, Except.bind, value] at failed
        cases failed
        exact isSpoilt_of_takeText (by simp) value
      | ok taken' =>
        simp only [bind, Except.bind, value] at failed
        exact ih failed

theorem Packet.isSpoilt_of_frame? {p : Packet} (failed : p.frame? = .error error) : error.IsSpoilt := by
  rw [frame?] at failed
  cases className : Utf8.decode p.className with
  | error flaw =>
    rw [className] at failed
    cases failed
    exact .className
  | ok text =>
    rw [className] at failed
    cases block : decodeHeaders p.headers with
    | error error =>
      simp only [block, bind, Except.bind, pure, Except.pure] at failed
      cases failed
      exact isSpoilt_of_decodeHeadersWithin block
    | ok headers =>
      simp only [block, bind, Except.bind, pure, Except.pure] at failed
      cases failed

theorem rest_of_starts {type : UInt8} {parts rest : Bytes} (starts : Starts version type buffer parts rest) :
    rest = buffer.drop (declaredSize version type buffer) := by
  rw [Bytes.eq_drop_of_dropExactly starts.whole, Bytes.eq_drop_of_dropExactly starts.fixed, List.drop_drop,
    declaredSize]

end Bolt

namespace Codec

variable {codec : Codec} {drained : Drained}

/-- The size that a frame declares in its fixed part, once that is there. -/
def declaredSize? (codec : Codec) (buffer : Bytes) : Option Nat :=
  match codec with
  | .bolt version _ => do
    let type ← buffer[version.typeOffset]?
    if version.fixedSize (type == 0) ≤ buffer.length then Bolt.declaredSize version type buffer else none
  | .dubbo => if Dubbo.headerSize ≤ buffer.length then Dubbo.declaredSize buffer else none

/-- A whole frame of `size` bytes starts the buffer. -/
structure StartsWhole (codec : Codec) (buffer : Bytes) (size : Nat) : Prop where
  declared : codec.declaredSize? buffer = some size
  least : 16 ≤ size
  most : size ≤ Frame.maxSize
  inside : size ≤ buffer.length

/-- What decoding a buffer comes to. -/
inductive Outcome (codec : Codec) (buffer : Bytes) : Decoded → Prop where
  | waits : buffer.length < Frame.maxSize → Outcome codec buffer .incomplete
  | takes {frame : Frame} {size : Nat} : codec.StartsWhole buffer size →
      Outcome codec buffer (.frame frame (buffer.drop size))
  | foreign {code : UInt16} : Outcome codec buffer (.failed (.unknownProtocol code) buffer)
  | unknown {type : UInt8} : type > 2 →
      Outcome codec buffer (.failed (.invalidFrameHeader (.unknownCommandType type)) buffer)
  | oversized {size : Nat} : codec.declaredSize? buffer = some size → Frame.maxSize < size →
      Outcome codec buffer (.failed (.messageTooLarge size Frame.maxSize) buffer)
  /-- Class name or header block of a whole frame cannot be read. -/
  | spoilt {error : WireError} {size : Nat} : error.IsSpoilt → codec.StartsWhole buffer size →
      Outcome codec buffer (.failed error (buffer.drop size))

theorem bolt_outcome (version : Bolt.Version) (className : String) (buffer : Bytes) :
    Outcome (.bolt version className) buffer (Bolt.decode version buffer) := by
  have decodes := Bolt.decodes version buffer
  generalize Bolt.decode version buffer = decoded at decodes
  have fixedSize_le : ∀ response, version.fixedSize response ≤ 24 := by
    intro response
    cases version <;> cases response <;> decide
  have declares : ∀ {type}, buffer[version.typeOffset]? = some type →
      version.fixedSize (type == 0) ≤ buffer.length →
      (Codec.bolt version className).declaredSize? buffer =
        some (Bolt.declaredSize version type buffer) := by
    intro type command inside
    rw [declaredSize?, command, Option.bind_eq_bind, Option.bind_some, if_pos inside]
  cases decodes with
  | empty nothing =>
    rw [nothing]
    exact .waits (by decide)
  | foreign => exact .foreign
  | untyped _ short =>
    refine .waits (Nat.lt_of_le_of_lt short ?_)
    cases version <;> decide
  | unknown _ _ unknown => exact .unknown unknown
  | short _ short => exact .waits (Nat.lt_trans (Nat.lt_of_lt_of_le short (fixedSize_le _)) (by decide))
  | oversized opens inside large => exact .oversized (declares opens.command inside) large
  | cut _ _ small short => exact .waits (Nat.lt_of_lt_of_le short small)
  | @whole type parts rest starts =>
    have fixed := Bytes.length_of_dropExactly starts.fixed
    have enough := Bytes.length_of_dropExactly starts.whole
    have least := version.le_fixedSize (type == 0)
    have size : Bolt.declaredSize version type buffer =
        version.fixedSize (type == 0) + (Bolt.declared version type buffer).sum := rfl
    have whole : (Codec.bolt version className).StartsWhole buffer (Bolt.declaredSize version type buffer) :=
      ⟨declares starts.command (by omega), by omega, starts.size_le, by omega⟩
    rw [Bolt.rest_of_starts starts]
    cases read : (Bolt.Packet.front version type buffer parts).frame? with
    | ok frame => exact .takes whole
    | error error => exact .spoilt (Bolt.Packet.isSpoilt_of_frame? read) whole

theorem dubbo_outcome (buffer : Bytes) : Outcome .dubbo buffer (Dubbo.decode buffer) := by
  have decodes := Dubbo.decodes buffer
  generalize Dubbo.decode buffer = decoded at decodes
  cases decodes with
  | unmarked short => exact .waits (Nat.lt_trans short (by decide))
  | foreign => exact .foreign
  | short _ short => exact .waits (Nat.lt_trans short (by decide))
  | oversized _ inside large => exact .oversized (if_pos inside) large
  | cut _ _ small short => exact .waits (Nat.lt_of_lt_of_le short small)
  | whole _ small enough =>
    have least : Dubbo.headerSize ≤ Dubbo.declaredSize buffer := Nat.le_add_right _ _
    exact .takes ⟨if_pos (Nat.le_trans least enough), least, small, enough⟩

theorem outcome (codec : Codec) (buffer : Bytes) : Outcome codec buffer (codec.decode buffer) := by
  cases codec with
  | bolt version className => exact bolt_outcome version className buffer
  | dubbo => exact dubbo_outcome buffer

/-! ### Draining -/

/-- Frames are taken off a buffer one by one until there is no whole one or an error. -/
inductive Drains (codec : Codec) : Bytes → Drained → Prop where
  | waits {buffer : Bytes} : codec.decode buffer = .incomplete → Drains codec buffer ⟨[], none, buffer⟩
  | fails {buffer rest : Bytes} {error : WireError} : codec.decode buffer = .failed error rest →
      Drains codec buffer ⟨[], some error, rest⟩
  | takes {buffer rest : Bytes} {frame : Frame} {drained : Drained} :
      codec.decode buffer = .frame frame rest → Drains codec rest drained →
      Drains codec buffer (drained.behind [frame])

theorem drains (codec : Codec) (buffer : Bytes) : Drains codec buffer (codec.drain buffer) := by
  induction buffer using drain_induct codec with
  | incomplete buffer waits =>
    rw [drain_of_incomplete waits]
    exact .waits waits
  | failed buffer error rest failed =>
    rw [drain_of_failed failed]
    exact .fails failed
  | frame buffer frame rest taken ih =>
    rw [drain_of_frame taken]
    exact .takes taken ih

/-- A buffer is drained in one way only. -/
theorem Drains.eq_drain (drains : Drains codec buffer drained) : drained = codec.drain buffer := by
  induction drains with
  | waits waits => exact (drain_of_incomplete waits).symm
  | fails failed => exact (drain_of_failed failed).symm
  | takes taken _ ih => rw [drain_of_frame taken, ih]

theorem Drains.length_le (drains : Drains codec buffer drained) :
    16 * drained.frames.length + drained.rest.length ≤ buffer.length := by
  induction drains with
  | waits => exact Nat.le_of_eq (Nat.zero_add _)
  | @fails buffer rest error failed =>
    have outcome := codec.outcome buffer
    rw [failed] at outcome
    have left : rest.length ≤ buffer.length := by
      cases outcome with
      | foreign | unknown | oversized => exact Nat.le_refl _
      | spoilt => exact (List.drop_sublist _ _).length_le
    dsimp only [List.length_nil]
    omega
  | @takes buffer rest frame drained taken _ ih =>
    have outcome := codec.outcome buffer
    rw [taken] at outcome
    cases outcome with
    | takes whole =>
      have least := whole.least
      have inside := whole.inside
      rw [List.length_drop] at ih
      dsimp only [Drained.behind]
      rw [List.length_append, List.length_singleton]
      omega

theorem Drains.rest_lt (drains : Drains codec buffer drained) (success : drained.error = none) :
    drained.rest.length < Frame.maxSize := by
  induction drains with
  | @waits buffer waits =>
    have outcome := codec.outcome buffer
    rw [waits] at outcome
    cases outcome with
    | waits short => exact short
  | fails => cases success
  | takes _ _ ih => exact ih success

/-- Whatever arrived, what is kept without an error is short. -/
theorem rest_lt_of_feedAll (codec : Codec) (chunks : List Bytes)
    (success : (codec.feedAll chunks).error = none) :
    (codec.feedAll chunks).rest.length < Frame.maxSize := by
  have kept : ∀ drained : Drained, (drained.error = none → drained.rest.length < Frame.maxSize) →
      ∀ chunk ∈ chunks, (drained.feed codec chunk).error = none →
        (drained.feed codec chunk).rest.length < Frame.maxSize := by
    intro drained short chunk _ success
    rw [Drained.feed] at success ⊢
    split at success
    next failed => exact short (failed ▸ success)
    next => exact (codec.drains _).rest_lt success
  exact List.foldlRecOn (motive := fun drained => drained.error = none → drained.rest.length < Frame.maxSize)
    chunks (Drained.feed codec) (fun _ => by decide) kept success

end Codec
end RpcClient
