import RpcClient.Proofs.Bytes
import RpcClient.Proofs.Dubbo.Attachments
import RpcClient.Proofs.Entries

/-! Frames survive the wire: decoding gives back what was encoded, with the body that was sent and with
what that body says about the frame. -/
namespace RpcClient.Dubbo

variable {frame : Frame} {wire : Bytes}

/-- The body that stands on the wire. -/
def sentBody (frame : Frame) : Bytes :=
  if carriesInvocation frame.kind then attach frame else frame.body

/-- Frames that the limit on sizes and the width of the status allow. -/
structure Fits (frame : Frame) : Prop where
  size : headerSize + (sentBody frame).length ≤ Frame.maxSize
  status : frame.kind = .response → frame.status.toNat ≤ 255

/-- The fixed part as numbers, each behind its width. -/
def fields (frame : Frame) : List (Nat × Nat) :=
  [(2, magic.toNat), (1, (flagsOf frame.kind frame.serialization).toNat),
    (1, if frame.isResponse then frame.status.toNat else 0), (8, frame.requestId.toNat),
    (4, (sentBody frame).length)]

/-- What the wire carries of a frame. -/
def carried (frame : Frame) : Frame where
  kind := frame.kind
  requestId := frame.requestId
  status := if frame.isResponse then frame.status else 0
  serialization := frame.serialization % 32
  body := sentBody frame

/-- The header entries of a frame that carries an invocation: its leading strings, overridden by its
attachments but for the timeout. -/
def Invocation.headers (invocation : Invocation) : List (String × String) :=
  Entries.putAll (Entries.remove timeoutKey invocation.attachments) invocation.service

/-- A frame with what its body says about it. -/
def described (frame : Frame) : Frame :=
  if carriesInvocation frame.kind then
    match Invocation.parse frame.body with
    | .ok invocation => withInvocation frame invocation
    | .error _ => frame
  else frame

theorem isResponse_iff : frame.isResponse = true ↔ frame.kind = .response := by
  rw [Frame.isResponse, beq_iff_eq]

/-- The flags of a kind of frame, as a number. -/
def kindFlags : FrameKind → Nat
  | .request => 192
  | .oneway => 128
  | .heartbeat => 224
  | .response => 0

theorem toNat_flagsOf (kind : FrameKind) (serialization : UInt8) :
    (flagsOf kind serialization).toNat = kindFlags kind + serialization.toNat % 32 := by
  have low : (serialization % 32).toNat = serialization.toNat % 32 := UInt8.toNat_mod _ _
  have small : serialization.toNat % 32 < 32 := Nat.mod_lt _ (by decide)
  cases kind
  all_goals
    simp only [flagsOf, kindFlags, UInt8.toNat_add, low, UInt8.reduceToNat]
    omega

theorem kindOf_flagsOf (kind : FrameKind) (serialization : UInt8) :
    kindOf (flagsOf kind serialization) = kind := by
  have small : serialization.toNat % 32 < 32 := Nat.mod_lt _ (by decide)
  rw [kindOf]
  simp only [UInt8.lt_iff_toNat_lt, ← UInt8.toNat_inj, UInt8.toNat_mod, UInt8.toNat_div, toNat_flagsOf,
    UInt8.reduceToNat]
  cases kind with
  | response => rw [kindFlags, if_pos (by omega)]
  | heartbeat => rw [kindFlags, if_neg (by omega), if_pos (by omega)]
  | oneway => rw [kindFlags, if_neg (by omega), if_neg (by omega), if_pos (by omega)]
  | request => rw [kindFlags, if_neg (by omega), if_neg (by omega), if_neg (by omega)]

theorem flagsOf_mod (kind : FrameKind) (serialization : UInt8) :
    flagsOf kind serialization % 32 = serialization % 32 := by
  rw [← UInt8.toNat_inj, UInt8.toNat_mod, UInt8.toNat_mod, toNat_flagsOf]
  cases kind
  all_goals
    simp only [kindFlags, UInt8.reduceToNat]
    omega

/-! ### Writing -/

theorem encode_eq (frame : Frame) :
    encode frame =
      if Frame.maxSize < headerSize + (sentBody frame).length then
        .error (.messageTooLarge (headerSize + (sentBody frame).length) Frame.maxSize)
      else if frame.isResponse = true ∧ 256 ≤ frame.status.toNat then
        .error (.invalidFrameHeader (.statusOutOfRange frame.status))
      else .ok (Bytes.row (fields frame) ++ sentBody frame) := by
  have wide : (frame.isResponse && decide (frame.status ≥ 256)) = true ↔
      frame.isResponse = true ∧ 256 ≤ frame.status.toNat := by
    rw [Bool.and_eq_true, decide_eq_true_eq]
    exact Iff.rfl
  rw [encode, ← sentBody.eq_def, Frame.checkSize]
  by_cases large : Frame.maxSize < headerSize + (sentBody frame).length
  · rw [if_pos large, if_pos large]
    rfl
  rw [if_neg large, if_neg large]
  by_cases bad : frame.isResponse = true ∧ 256 ≤ frame.status.toNat
  · rw [if_pos bad]
    simp only [bind, Except.bind, if_pos (wide.mpr bad)]
    rfl
  rw [if_neg bad]
  simp only [bind, Except.bind, if_neg (mt wide.mp bad)]
  have status : (if frame.isResponse then frame.status.toNat else 0) =
      (if frame.isResponse then frame.status.toUInt8 else 0).toNat := by
    split
    next response =>
      have narrow : frame.status.toNat < 256 := Nat.lt_of_not_le fun wide => bad ⟨response, wide⟩
      rw [UInt16.toNat_toUInt8, Nat.mod_eq_of_lt narrow]
    next => rfl
  rw [fields, status]
  simp only [Bytes.row, List.flatMap_cons, List.flatMap_nil, Bytes.bigEndian_one, List.append_nil,
    List.append_assoc, List.cons_append, List.nil_append]
  rfl

theorem encode_eq_ok_iff : encode frame = .ok wire ↔
    Fits frame ∧ wire = Bytes.row (fields frame) ++ sentBody frame := by
  rw [encode_eq]
  constructor
  · intro encoded
    split at encoded
    · cases encoded
    next small =>
    split at encoded
    · cases encoded
    next narrow =>
    cases encoded
    refine ⟨⟨Nat.le_of_not_lt small, ?_⟩, rfl⟩
    intro response
    exact Nat.le_of_not_lt fun wide => narrow ⟨isResponse_iff.mpr response, wide⟩
  · rintro ⟨fits, rfl⟩
    have narrow : ¬(frame.isResponse = true ∧ 256 ≤ frame.status.toNat) := by
      rintro ⟨response, wide⟩
      exact Nat.not_lt_of_le (fits.status (isResponse_iff.mp response)) wide
    rw [if_neg (Nat.not_lt_of_le fits.size), if_neg narrow]

theorem encode_eq_error_iff : (∃ error, encode frame = .error error) ↔
    Frame.maxSize < headerSize + (sentBody frame).length ∨
      frame.kind = .response ∧ 255 < frame.status.toNat := by
  rw [encode_eq, ← isResponse_iff]
  split
  next large => exact ⟨fun _ => .inl large, fun _ => ⟨_, rfl⟩⟩
  next small =>
  split
  next wide => exact ⟨fun _ => .inr wide, fun _ => ⟨_, rfl⟩⟩
  next narrow => exact ⟨nofun, fun failed => (failed.elim small narrow).elim⟩

/-! ### Reading -/

theorem length_row_fields (frame : Frame) : (Bytes.row (fields frame)).length = headerSize := by
  simp only [fields, Bytes.row_cons, List.length_append, Bytes.length_bigEndian]
  rfl

theorem Fits.fields_lt (fits : Fits frame) : ∀ field ∈ fields frame, field.2 < Nat.pow 256 field.1 := by
  have size := fits.size
  have flags := (flagsOf frame.kind frame.serialization).toNat_lt
  have requestId := frame.requestId.toNat_lt
  have status : (if frame.isResponse then frame.status.toNat else 0) < 256 := by
    split
    next response => exact Nat.lt_succ_of_le (fits.status (isResponse_iff.mp response))
    next => decide
  rw [headerSize, Frame.maxSize] at size
  simp only [fields, List.forall_mem_cons, List.not_mem_nil, false_implies, implies_true, and_true]
  exact ⟨by decide, flags, status, requestId, Nat.lt_of_le_of_lt (by omega : _ ≤ 10485760) (by decide)⟩

/-- What was encoded is decoded again, whatever follows it. -/
theorem decode_encode (encoded : encode frame = .ok wire) (rest : Bytes) :
    decode (wire ++ rest) = .frame (described (carried frame)) rest := by
  obtain ⟨fits, rfl⟩ := encode_eq_ok_iff.mp encoded
  have read : Bytes.numbersFrom (Bytes.row (fields frame) ++ (sentBody frame ++ rest)) 0 [2, 1, 1, 8, 4] =
      (fields frame).map Prod.snd := Bytes.numbersFrom_row (fields frame) [] _ fits.fields_lt
  simp only [Bytes.numbersFrom, fields.eq_def frame, List.map_cons, List.map_nil, List.cons.injEq, and_true,
    Nat.reduceAdd] at read
  rw [← fields.eq_def] at read
  obtain ⟨start, flags, status, requestId, size⟩ := read
  have front : ∃ behind, Bytes.dropExactly 2 (Bytes.row (fields frame) ++ (sentBody frame ++ rest)) =
      some behind := by
    rw [fields, Bytes.row_cons, List.append_assoc]
    exact ⟨_, Bytes.dropExactly_append (Bytes.bigEndian 2 magic.toNat) _⟩
  have parts : Bytes.dropExactly headerSize (Bytes.row (fields frame) ++ (sentBody frame ++ rest)) =
      some (sentBody frame ++ rest) := by
    rw [← length_row_fields frame]
    exact Bytes.dropExactly_append _ _
  have whole := Bytes.dropExactly_append (sentBody frame) rest
  have small := Frame.checkSize_eq_ok_iff.mpr fits.size
  have fixed : readFrame (Bytes.row (fields frame) ++ (sentBody frame ++ rest)) (sentBody frame) =
      described (carried frame) := by
    have status' : UInt16.ofNat (if frame.isResponse then frame.status.toNat else 0) =
        if frame.isResponse then frame.status else 0 := by
      split
      · exact UInt16.ofNat_toNat
      · rfl
    rw [readFrame, flags, requestId, status, UInt8.ofNat_toNat, UInt64.ofNat_toNat, status',
      kindOf_flagsOf, flagsOf_mod]
    rfl
  obtain ⟨behind, front⟩ := front
  rw [List.append_assoc, decode, front]
  simp only [start, ne_eq, not_true, if_false, parts, size, small, whole, List.take_left, fixed]

/-! ### What a body says -/

theorem exists_foldl_receiveAttachment (attachments : List (String × String)) (frame : Frame) :
    ∃ timeoutMs, attachments.foldl receiveAttachment frame = { frame with
      timeoutMs, headers := Entries.putAll (Entries.remove timeoutKey attachments) frame.headers } := by
  induction attachments generalizing frame with
  | nil => exact ⟨frame.timeoutMs, rfl⟩
  | cons attachment attachments ih =>
    obtain ⟨key, value⟩ := attachment
    obtain ⟨timeoutMs, rest⟩ := ih (receiveAttachment frame (key, value))
    refine ⟨timeoutMs, ?_⟩
    rw [List.foldl_cons, rest, Entries.remove, Entries.remove, List.filter_cons, receiveAttachment]
    by_cases timeout : key = timeoutKey
    · rw [if_pos timeout, if_neg (by simp [timeout])]
    · rw [if_neg timeout, if_pos (by simpa using timeout)]
      rfl

/-- A body gives a frame header entries, a class and a timeout, and changes nothing else. -/
theorem exists_withInvocation (frame : Frame) (invocation : Invocation) :
    ∃ timeoutMs, withInvocation frame invocation = { frame with
      timeoutMs
      headers := invocation.headers
      className := (Entries.get? serviceKey invocation.headers).getD frame.className } := by
  obtain ⟨timeoutMs, received⟩ :=
    exists_foldl_receiveAttachment invocation.attachments { frame with headers := invocation.service }
  refine ⟨timeoutMs, ?_⟩
  rw [withInvocation]
  simp only [received]
  rfl

theorem described_of_parse {invocation : Invocation} (carries : carriesInvocation frame.kind = true)
    (parsed : Invocation.parse frame.body = .ok invocation) :
    described frame = withInvocation frame invocation := by
  rw [described, if_pos carries, parsed]

/-- A frame that carries no invocation. -/
def Plain (frame : Frame) : Prop :=
  carriesInvocation frame.kind = true → ∀ invocation, Invocation.parse frame.body ≠ .ok invocation

theorem Plain.described_eq (plain : Plain frame) : described frame = frame := by
  rw [described]
  split
  next carries =>
    split
    next invocation parsed => exact absurd parsed (plain carries invocation)
    · rfl
  · rfl

theorem Plain.sentBody_eq (plain : Plain frame) : sentBody frame = frame.body := by
  rw [sentBody]
  split
  next carries =>
    rw [attach]
    split
    · rfl
    next invocation parsed => exact absurd parsed (plain carries invocation)
  · rfl

theorem exists_described (frame : Frame) : ∃ timeoutMs headers className,
    described frame = { frame with timeoutMs, headers, className } := by
  rw [described]
  split
  · split
    next invocation _ =>
      obtain ⟨timeoutMs, received⟩ := exists_withInvocation frame invocation
      exact ⟨timeoutMs, _, _, received⟩
    · exact ⟨_, _, _, rfl⟩
  · exact ⟨_, _, _, rfl⟩

/-- A received frame against the one that was sent. -/
structure Arrived (sent received : Frame) : Prop where
  kind : received.kind = sent.kind
  requestId : received.requestId = sent.requestId
  serialization : received.serialization.toNat = sent.serialization.toNat % 32
  status : received.status = if sent.kind = .response then sent.status else 0
  body : received.body = if sent.kind = .request ∨ sent.kind = .oneway then attach sent else sent.body
  /-- A frame without an invocation arrives with its own body and nothing that a body could say. -/
  plain : (sent.kind = .request ∨ sent.kind = .oneway →
      ∀ invocation, Invocation.parse sent.body ≠ .ok invocation) →
    received.headers = [] ∧ received.className = "" ∧ received.timeoutMs = 0 ∧ received.body = sent.body

theorem carriesInvocation_iff {kind : FrameKind} :
    carriesInvocation kind = true ↔ kind = .request ∨ kind = .oneway := by
  cases kind <;> decide

theorem arrived_described (frame : Frame) : Arrived frame (described (carried frame)) := by
  obtain ⟨timeoutMs, headers, className, kept⟩ := exists_described (carried frame)
  have body : (described (carried frame)).body = sentBody frame := by
    rw [kept]
    rfl
  refine ⟨?_, ?_, ?_, ?_, ?_, ?_⟩
  · rw [kept]
    rfl
  · rw [kept]
    rfl
  · rw [kept]
    exact UInt8.toNat_mod _ _
  · rw [kept]
    simp only [carried, isResponse_iff]
  · rw [body, sentBody]
    simp only [carriesInvocation_iff]
  · rw [← carriesInvocation_iff]
    intro plain
    have sent : Plain frame := plain
    have same : (carried frame).body = frame.body := sent.sentBody_eq
    have arrives : Plain (carried frame) := by
      rw [Plain, same]
      exact plain
    rw [arrives.described_eq]
    exact ⟨rfl, rfl, rfl, same⟩

/-- Encoding fails exactly on frames that are too large and on statuses that are too wide, and what it
writes arrives, whatever follows it. -/
theorem sent_frame_arrives (frame : Frame) (rest : Bytes) :
    ((∃ error, encode frame = .error error) ↔
      10485760 < 16 + (sentBody frame).length ∨ frame.kind = .response ∧ 255 < frame.status.toNat) ∧
    ∀ wire, encode frame = .ok wire →
      ∃ received, decode (wire ++ rest) = .frame received rest ∧ Arrived frame received := by
  refine ⟨encode_eq_error_iff, ?_⟩
  intro wire encoded
  exact ⟨described (carried frame), decode_encode encoded rest, arrived_described frame⟩

/-- A response with the greatest number and status, and a call whose body is no invocation. -/
theorem response_and_plain_call_arrive :
    (∃ wire received, encode ⟨.response, 18446744073709551615, 5, "a", 255, 34, [("k", "v")], [9]⟩ =
        .ok wire ∧ decode (wire ++ [1]) = .frame received [1] ∧
      Arrived ⟨.response, 18446744073709551615, 5, "a", 255, 34, [("k", "v")], [9]⟩ received) ∧
    ∃ wire received, encode ⟨.oneway, 7, 5, "a", 300, 31, [("k", "v")], [0x90]⟩ = .ok wire ∧
      decode (wire ++ [1]) = .frame received [1] ∧ received.timeoutMs = 0 ∧ received.body = [0x90] := by
  have response : encode ⟨.response, 18446744073709551615, 5, "a", 255, 34, [("k", "v")], [9]⟩ =
      .ok [0xda, 0xbb, 2, 255, 255, 255, 255, 255, 255, 255, 255, 255, 0, 0, 0, 1, 9] :=
    eq_ok_of_toOption (by decide +kernel)
  have call : encode ⟨.oneway, 7, 5, "a", 300, 31, [("k", "v")], [0x90]⟩ =
      .ok [0xda, 0xbb, 0x9f, 0, 0, 0, 0, 0, 0, 0, 0, 7, 0, 0, 0, 1, 0x90] :=
    eq_ok_of_toOption (by decide +kernel)
  obtain ⟨received, decoded, arrived⟩ := (sent_frame_arrives _ [1]).2 _ response
  obtain ⟨received', decoded', arrived'⟩ := (sent_frame_arrives _ [1]).2 _ call
  have plain : ∀ invocation, Invocation.parse [0x90] ≠ .ok invocation := by
    intro invocation parsed
    have failed : (Invocation.parse [0x90]).toOption = none := by decide +kernel
    rw [parsed] at failed
    cases failed
  obtain ⟨-, -, untimed, body⟩ := arrived'.plain fun _ => plain
  exact ⟨⟨_, received, response, decoded, arrived⟩, _, received', call, decoded', untimed, body⟩

end RpcClient.Dubbo
