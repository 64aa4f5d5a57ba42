import RpcClient.Proofs.Codec.Stream

/-! How decoding goes: what it finds at the front of a buffer, in the order in which it looks, and what
comes of it. -/
namespace RpcClient

variable {buffer : Bytes}

namespace Bolt

variable {version : Version} {type : UInt8} {parts rest : Bytes}

/-- The size that the fixed part of a frame of this type declares. -/
def declaredSize (version : Version) (type : UInt8) (buffer : Bytes) : Nat :=
  version.fixedSize (type == 0) + (declared version type buffer).sum

/-- The buffer starts like a frame of a known type. -/
structure Opens (version : Version) (type : UInt8) (buffer : Bytes) : Prop where
  protocol : buffer[0]? = some version.protocolNumber
  command : buffer[version.typeOffset]? = some type
  known : type ≤ 2

/-- How decoding goes. -/
inductive Decodes (version : Version) (buffer : Bytes) : Decoded → Prop where
  | empty : buffer = [] → Decodes version buffer .incomplete
  | foreign {first : UInt8} : buffer[0]? = some first → first ≠ version.protocolNumber →
      Decodes version buffer (.failed (.unknownProtocol first.toUInt16) buffer)
  | untyped : buffer[0]? = some version.protocolNumber → buffer.length ≤ version.typeOffset →
      Decodes version buffer .incomplete
  | unknown {type : UInt8} : buffer[0]? = some version.protocolNumber →
      buffer[version.typeOffset]? = some type → type > 2 →
      Decodes version buffer (.failed (.invalidFrameHeader (.unknownCommandType type)) buffer)
  | short {type : UInt8} : Opens version type buffer →
      buffer.length < version.fixedSize (type == 0) → Decodes version buffer .incomplete
  | oversized {type : UInt8} : Opens version type buffer →
      version.fixedSize (type == 0) ≤ buffer.length → Frame.maxSize < declaredSize version type buffer →
      Decodes version buffer
        (.failed (.messageTooLarge (declaredSize version type buffer) Frame.maxSize) buffer)
  | cut {type : UInt8} : Opens version type buffer → version.fixedSize (type == 0) ≤ buffer.length →
      declaredSize version type buffer ≤ Frame.maxSize →
      buffer.length < declaredSize version type buffer → Decodes version buffer .incomplete
  | whole {type : UInt8} {parts rest : Bytes} : Starts version type buffer parts rest →
      Decodes version buffer
        (match (Packet.front version type buffer parts).frame? with
        | .ok frame => .frame frame rest
        | .error error => .failed error rest)

theorem decodes (version : Version) (buffer : Bytes) : Decodes version buffer (decode version buffer) := by
  cases buffer with
  | nil => exact .empty rfl
  | cons first behind =>
  by_cases other : first ≠ version.protocolNumber
  · rw [decode, if_pos other]
    exact .foreign rfl other
  have protocol : (first :: behind)[0]? = some version.protocolNumber :=
    congrArg some (Decidable.not_not.mp other)
  cases here : (first :: behind)[version.typeOffset]? with
  | none =>
    simp only [decode, if_neg other, here]
    exact .untyped protocol (List.getElem?_eq_none_iff.mp here)
  | some type =>
  by_cases unknown : type > 2
  · simp only [decode, if_neg other, here, if_pos unknown]
    exact .unknown protocol here unknown
  have opens : Opens version type (first :: behind) := ⟨protocol, here, UInt8.not_lt.mp unknown⟩
  cases fixed : Bytes.dropExactly (version.fixedSize (type == 0)) (first :: behind) with
  | none =>
    simp only [decode, if_neg other, here, if_neg unknown, fixed]
    exact .short opens (Bytes.dropExactly_eq_none_iff.mp fixed)
  | some parts =>
  have size := Bytes.length_of_dropExactly fixed
  have inside : version.fixedSize (type == 0) ≤ (first :: behind).length := by omega
  have sizes : version.fixedSize (type == 0) +
      (Lengths.read version (version.fixedSize (type == 0)) (first :: behind)).sum =
        declaredSize version type (first :: behind) := rfl
  by_cases large : Frame.maxSize < declaredSize version type (first :: behind)
  · simp only [decode, if_neg other, here, if_neg unknown, fixed, sizes, Frame.checkSize, gt_iff_lt,
      if_pos large]
    exact .oversized opens inside large
  cases whole : Bytes.dropExactly (declared version type (first :: behind)).sum parts with
  | none =>
    have missing := Bytes.dropExactly_eq_none_iff.mp whole
    have short : (first :: behind).length < declaredSize version type (first :: behind) := by
      rw [declaredSize]
      omega
    rw [declared] at whole
    simp only [decode, if_neg other, here, if_neg unknown, fixed, sizes, Frame.checkSize, gt_iff_lt,
      if_neg large, whole]
    exact .cut opens inside (Nat.not_lt.mp large) short
  | some rest =>
    have starts : Starts version type (first :: behind) parts rest :=
      ⟨protocol, here, opens.known, fixed, Nat.not_lt.mp large, whole⟩
    have taken := Packet.decode_bytes starts.valid_front rest
    rw [starts.bytes_front] at taken
    rw [taken]
    exact .whole starts

end Bolt

namespace Dubbo

/-- The size that the fixed fields of a frame declare. -/
def declaredSize (buffer : Bytes) : Nat :=
  headerSize + Bytes.numberAt buffer 12 4

/-- The buffer starts like a frame. -/
structure Opens (buffer : Bytes) : Prop where
  two : 2 ≤ buffer.length
  protocol : Bytes.numberAt buffer 0 2 = magic.toNat

/-- How decoding goes. -/
inductive Decodes (buffer : Bytes) : Decoded → Prop where
  | unmarked : buffer.length < 2 → Decodes buffer .incomplete
  | foreign : 2 ≤ buffer.length → Bytes.numberAt buffer 0 2 ≠ magic.toNat →
      Decodes buffer (.failed (.unknownProtocol (UInt16.ofNat (Bytes.numberAt buffer 0 2))) buffer)
  | short : Opens buffer → buffer.length < headerSize → Decodes buffer .incomplete
  | oversized : Opens buffer → headerSize ≤ buffer.length → Frame.maxSize < declaredSize buffer →
      Decodes buffer (.failed (.messageTooLarge (declaredSize buffer) Frame.maxSize) buffer)
  | cut : Opens buffer → headerSize ≤ buffer.length → declaredSize buffer ≤ Frame.maxSize →
      buffer.length < declaredSize buffer → Decodes buffer .incomplete
  | whole : Opens buffer → declaredSize buffer ≤ Frame.maxSize →
      declaredSize buffer ≤ buffer.length →
      Decodes buffer
        (.frame (readFrame buffer ((buffer.drop headerSize).take (Bytes.numberAt buffer 12 4)))
          (buffer.drop (declaredSize buffer)))

theorem decodes (buffer : Bytes) : Decodes buffer (decode buffer) := by
  cases start : Bytes.dropExactly 2 buffer with
  | none =>
    simp only [decode, start]
    exact .unmarked (Bytes.dropExactly_eq_none_iff.mp start)
  | some behind =>
  have two : 2 ≤ buffer.length := Nat.le.intro ((Nat.add_comm _ _).trans (Bytes.length_of_dropExactly start))
  by_cases other : Bytes.numberAt buffer 0 2 ≠ magic.toNat
  · simp only [decode, start, if_pos other]
    exact .foreign two other
  have opens : Opens buffer := ⟨two, Decidable.not_not.mp other⟩
  cases fixed : Bytes.dropExactly headerSize buffer with
  | none =>
    simp only [decode, start, if_neg other, fixed]
    exact .short opens (Bytes.dropExactly_eq_none_iff.mp fixed)
  | some parts =>
  have size := Bytes.length_of_dropExactly fixed
  have inside : headerSize ≤ buffer.length := by omega
  have sizes : headerSize + Bytes.numberAt buffer 12 4 = declaredSize buffer := rfl
  by_cases large : Frame.maxSize < declaredSize buffer
  · simp only [decode, start, if_neg other, fixed, sizes, Frame.checkSize, gt_iff_lt, if_pos large]
    exact .oversized opens inside large
  cases whole : Bytes.dropExactly (Bytes.numberAt buffer 12 4) parts with
  | none =>
    have missing := Bytes.dropExactly_eq_none_iff.mp whole
    simp only [decode, start, if_neg other, fixed, sizes, Frame.checkSize, gt_iff_lt, if_neg large, whole]
    exact .cut opens inside (Nat.not_lt.mp large) (by omega)
  | some rest =>
    have enough := Bytes.length_of_dropExactly whole
    have behind : rest = buffer.drop (declaredSize buffer) := by
      rw [Bytes.eq_drop_of_dropExactly whole, Bytes.eq_drop_of_dropExactly fixed, List.drop_drop]
      rfl
    simp only [decode, start, if_neg other, fixed, sizes, Frame.checkSize, gt_iff_lt, if_neg large, whole]
    rw [behind, Bytes.eq_drop_of_dropExactly fixed]
    exact .whole opens (Nat.not_lt.mp large) (by omega)

end Dubbo
end RpcClient
