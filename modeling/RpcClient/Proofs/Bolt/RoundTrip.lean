import RpcClient.Proofs.Bolt.Packet

/-! Frames survive the wire: decoding gives back what was encoded, as far as the wire carries it, and
encoding gives back the bytes that were decoded, as far as they are in the one form that is written. -/
namespace RpcClient.Bolt

variable {version : Version} {frame : Frame} {wire buffer rest : Bytes}

/-- The size of a frame on the wire. -/
def wireSize (version : Version) (frame : Frame) : Nat :=
  version.fixedSize frame.isResponse + frame.className.utf8ByteSize + blockSize frame.headers +
    frame.body.length

/-- Frames that the length fields and the limit on sizes allow. -/
structure Fits (version : Version) (frame : Frame) : Prop where
  className : frame.className.utf8ByteSize ≤ 65535
  headers : blockSize frame.headers ≤ 65535
  size : wireSize version frame ≤ Frame.maxSize

/-- What the wire carries of a frame. -/
def carried (frame : Frame) : Frame :=
  { frame with
    requestId := UInt64.ofNat (frame.requestId.toNat % UInt32.size)
    timeoutMs := if frame.isResponse then 0 else frame.timeoutMs
    status := if frame.isResponse then frame.status else 0 }

theorem kindOf_commandOf (kind : FrameKind) :
    kindOf (commandOf kind).1 (commandOf kind).2 = kind := by
  cases kind <;> rfl

namespace Packet

variable {p : Packet}

/-- The packet that is written for a frame. -/
def ofFrame (frame : Frame) : Packet where
  layout := 1
  type := (commandOf frame.kind).1.toNat
  code := (commandOf frame.kind).2
  commandVersion := 1
  requestId := frame.requestId.toNat % UInt32.size
  serialization := frame.serialization.toNat
  switches := 0
  term := if frame.isResponse then frame.status.toNat else frame.timeoutMs.toNat
  className := Utf8.encode frame.className
  headers := headerBlock frame.headers
  body := frame.body
  checksum := []

theorem isResponse_ofFrame (frame : Frame) : (ofFrame frame).isResponse = frame.isResponse := by
  rw [isResponse, ofFrame, Frame.isResponse]
  cases frame.kind <;> rfl

theorem length_bytes_ofFrame (version : Version) (frame : Frame) :
    ((ofFrame frame).bytes version).length = wireSize version frame := by
  rw [length_bytes, isResponse_ofFrame, ofFrame, Utf8.length_encode, length_headerBlock]
  rfl

theorem valid_ofFrame (fits : Fits version frame) : (ofFrame frame).Valid version := by
  have className := fits.className
  have headers := fits.headers
  have size := fits.size
  have type : (commandOf frame.kind).1.toNat ≤ 2 := by cases frame.kind <;> decide
  have code : (commandOf frame.kind).2 ≤ 2 := by cases frame.kind <;> decide
  have requestId : frame.requestId.toNat % UInt32.size < 4294967296 := Nat.mod_lt _ (by decide)
  have term : (if frame.isResponse then frame.status.toNat else frame.timeoutMs.toNat) <
      Nat.pow 256 (if frame.isResponse then 2 else 4) := by
    split
    · exact frame.status.toNat_lt
    · exact frame.timeoutMs.toNat_lt
  have serialization : frame.serialization.toNat < 256 := frame.serialization.toNat_lt
  have one : Nat.pow 256 1 = 256 := rfl
  have two : Nat.pow 256 2 = 65536 := rfl
  have four : Nat.pow 256 4 = 4294967296 := rfl
  refine ⟨?_, type, ?_, ?_⟩
  · rw [fields.eq_def, isResponse_ofFrame]
    rw [wireSize, Frame.maxSize] at size
    cases version
    all_goals
      simp only [ofFrame, List.forall_mem_cons, List.cons_append, List.nil_append, List.not_mem_nil,
        false_implies, implies_true, and_true, Utf8.length_encode, length_headerBlock, one, two, four]
      omega
  · cases version <;> rfl
  · rw [length_bytes_ofFrame]
    exact size

theorem toFrame_ofFrame (frame : Frame) :
    (ofFrame frame).toFrame frame.className frame.headers = carried frame := by
  rw [toFrame, isResponse_ofFrame]
  simp only [ofFrame, carried, UInt8.ofNat_toNat, kindOf_commandOf]
  cases frame.isResponse with
  | false => simp only [Bool.false_eq_true, if_false, UInt32.ofNat_toNat]
  | true => simp only [if_true, UInt16.ofNat_toNat]

theorem frame?_ofFrame (fits : Fits version frame) : (ofFrame frame).frame? = .ok (carried frame) := by
  have block := fits.headers
  have small : blockSize frame.headers < UInt32.size := Nat.lt_of_le_of_lt block (by decide)
  exact frame?_eq_ok_iff.mpr ⟨frame.className, frame.headers, Utf8.decode_encode _,
    decodeHeaders_headerBlock small, toFrame_ofFrame frame⟩

end Packet

theorem encode_of_fits (fits : Fits version frame) :
    encode version frame = .ok ((Packet.ofFrame frame).bytes version) := by
  have className := fits.className
  have headers := fits.headers
  have small := Frame.checkSize_eq_ok_iff.mpr fits.size
  have requestId : Bytes.bigEndian 4 (frame.requestId.toNat % UInt32.size) =
      Bytes.bigEndian 4 frame.requestId.toNat := Bytes.bigEndian_mod 4 _
  have block := encodeHeaders_of_small (Nat.lt_of_le_of_lt headers (by decide))
  rw [wireSize] at small
  rw [encode]
  simp only [block, Utf8.length_encode, length_headerBlock, small, bind, Except.bind]
  rw [if_neg (by omega), if_neg (by omega)]
  simp only [pure, Except.pure, Except.ok.injEq]
  rw [Packet.bytes, Packet.fields.eq_def, Packet.isResponse_ofFrame, Bytes.row]
  cases version
  all_goals
    simp only [Packet.ofFrame, List.flatMap_cons, List.flatMap_nil, List.cons_append, List.nil_append,
      List.append_nil, List.append_assoc, Utf8.length_encode, length_headerBlock, Bytes.bigEndian_one,
      requestId, Version.start, Version.switches]
    cases frame.isResponse <;> rfl

theorem fits_of_encode (encoded : encode version frame = .ok wire) : Fits version frame := by
  rw [encode] at encoded
  obtain ⟨block, written, encoded⟩ := ok_of_bind_eq_ok encoded
  obtain rfl := eq_headerBlock_of_encodeHeaders written
  obtain ⟨⟨⟩, small, encoded⟩ := ok_of_bind_eq_ok encoded
  rw [Utf8.length_encode, length_headerBlock] at small encoded
  dsimp only at encoded
  split at encoded
  · cases encoded
  next className =>
  split at encoded
  · cases encoded
  next headers =>
  exact ⟨by omega, by omega, Frame.checkSize_eq_ok_iff.mp small⟩

theorem encode_eq_ok_iff : encode version frame = .ok wire ↔
    Fits version frame ∧ wire = (Packet.ofFrame frame).bytes version := by
  constructor
  · intro encoded
    have fits := fits_of_encode encoded
    rw [encode_of_fits fits] at encoded
    cases encoded
    exact ⟨fits, rfl⟩
  · rintro ⟨fits, rfl⟩
    exact encode_of_fits fits

/-- Encoding succeeds exactly on the frames that fit, and what it writes is decoded again, whatever
follows it. -/
theorem decode_undoes_encode (version : Version) (frame : Frame) :
    ((∃ wire, encode version frame = .ok wire) ↔
      frame.className.utf8ByteSize ≤ 65535 ∧ blockSize frame.headers ≤ 65535 ∧
        wireSize version frame ≤ 10485760) ∧
    ∀ wire, encode version frame = .ok wire → wire.length = wireSize version frame ∧
      ∀ rest, decode version (wire ++ rest) = .frame (carried frame) rest := by
  refine ⟨⟨?_, ?_⟩, ?_⟩
  · rintro ⟨wire, encoded⟩
    have fits := fits_of_encode encoded
    exact ⟨fits.className, fits.headers, fits.size⟩
  · rintro ⟨className, headers, size⟩
    exact ⟨_, encode_of_fits ⟨className, headers, size⟩⟩
  · intro wire encoded
    obtain ⟨fits, rfl⟩ := encode_eq_ok_iff.mp encoded
    refine ⟨Packet.length_bytes_ofFrame version frame, ?_⟩
    intro rest
    rw [Packet.decode_bytes (Packet.valid_ofFrame fits), Packet.frame?_ofFrame fits]

theorem repeated_keys_survive :
    ∃ wire, encode .v2 ⟨.response, 4294967297, 5, "a", 7, 1, [("k", ""), ("k", "é")], [9]⟩ = .ok wire ∧
      decode .v2 (wire ++ [2, 1]) =
        .frame ⟨.response, 1, 0, "a", 7, 1, [("k", ""), ("k", "é")], [9]⟩ [2, 1] := by
  obtain ⟨succeeds, decoded⟩ := decode_undoes_encode .v2
    ⟨.response, 4294967297, 5, "a", 7, 1, [("k", ""), ("k", "é")], [9]⟩
  obtain ⟨wire, encoded⟩ := succeeds.mpr ⟨by decide, by decide, by decide⟩
  exact ⟨wire, encoded, (decoded wire encoded).2 [2, 1]⟩

/-! ### From bytes to frames and back -/

theorem kindOf_eq_response (type : UInt8) (code : Nat) :
    (kindOf type code == .response) = (type == 0) := by
  rw [kindOf]
  by_cases zero : type = 0
  · subst zero
    rfl
  · rw [if_neg zero, beq_eq_false_iff_ne.mpr zero]
    split
    · rfl
    · split <;> rfl

namespace Packet

variable {p : Packet} {className : String} {headers : List (String × String)}

theorem Valid.requestId_mod (valid : p.Valid version) :
    (UInt64.ofNat p.requestId).toNat % UInt32.size = p.requestId := by
  have bound := Bytes.numberAt_lt (p.bytes version ++ []) (version.typeOffset + 4) 4
  rw [(valid.stands []).requestId] at bound
  have small : p.requestId < UInt32.size := bound
  rw [UInt64.toNat_ofNat', Nat.mod_eq_of_lt (Nat.lt_trans small (by decide)), Nat.mod_eq_of_lt small]

theorem Valid.serialization_lt (valid : p.Valid version) : p.serialization < UInt8.size := by
  have bound := Bytes.numberAt_lt (p.bytes version ++ []) (version.typeOffset + 8) 1
  rwa [(valid.stands []).serialization] at bound

theorem Valid.term_lt (valid : p.Valid version) :
    p.term < Nat.pow 256 (if p.isResponse then 2 else 4) := by
  have bound := Bytes.numberAt_lt (p.bytes version ++ [])
    (version.typeOffset + 9 + version.switches.length) (if p.isResponse then 2 else 4)
  rwa [(valid.stands []).term] at bound

theorem Valid.isResponse_toFrame (valid : p.Valid version) (className : String)
    (headers : List (String × String)) : (p.toFrame className headers).isResponse = p.isResponse := by
  rw [Frame.isResponse, toFrame, kindOf_eq_response, valid.type_cases.2]

/-- The wire carries the whole of a frame that was read from it. -/
theorem Valid.carried_toFrame (valid : p.Valid version) (className : String)
    (headers : List (String × String)) :
    carried (p.toFrame className headers) = p.toFrame className headers := by
  rw [carried, valid.isResponse_toFrame, toFrame]
  dsimp only
  rw [valid.requestId_mod]
  cases p.isResponse <;> rfl

/-- The packet in the one form that is written: no other layout or command version, no switches and
with them no checksum, and one of four commands. -/
def normal (p : Packet) : Packet :=
  { p with
    layout := 1
    type := (commandOf (kindOf (UInt8.ofNat p.type) p.code)).1.toNat
    code := (commandOf (kindOf (UInt8.ofNat p.type) p.code)).2
    commandVersion := 1
    switches := 0
    checksum := [] }

theorem Valid.ofFrame_toFrame (valid : p.Valid version)
    (spelled : Utf8.decode p.className = .ok className)
    (block : decodeHeaders p.headers = .ok headers) :
    ofFrame (p.toFrame className headers) = p.normal := by
  have serialization : (UInt8.ofNat p.serialization).toNat = p.serialization :=
    UInt8.toNat_ofNat_of_lt valid.serialization_lt
  have term : (if p.isResponse then (p.toFrame className headers).status.toNat
      else (p.toFrame className headers).timeoutMs.toNat) = p.term := by
    have bound := valid.term_lt
    rw [toFrame]
    dsimp only
    split
    next response =>
      rw [response, if_pos rfl] at bound
      exact UInt16.toNat_ofNat_of_lt bound
    next response =>
      rw [if_neg response] at bound
      exact UInt32.toNat_ofNat_of_lt bound
  rw [ofFrame, valid.isResponse_toFrame, term, toFrame]
  dsimp only
  rw [valid.requestId_mod, serialization, Utf8.encode_of_decode spelled,
    ← eq_headerBlock_of_decodeHeaders block]
  rfl

theorem Valid.fits_toFrame (valid : p.Valid version)
    (spelled : Utf8.decode p.className = .ok className)
    (block : decodeHeaders p.headers = .ok headers) : Fits version (p.toFrame className headers) := by
  have lengths := (valid.stands []).lengths
  rw [Packet.lengths, Lengths.read.eq_def, Lengths.mk.injEq] at lengths
  obtain ⟨classLength, headersLength, -, -⟩ := lengths
  have two : Nat.pow 256 2 = 65536 := rfl
  have classBound := Bytes.numberAt_lt (p.bytes version ++ []) (version.fixedSize p.isResponse - 8) 2
  have headersBound := Bytes.numberAt_lt (p.bytes version ++ []) (version.fixedSize p.isResponse - 6) 2
  have classSize := Utf8.length_encode className
  have headersSize := length_headerBlock headers
  rw [Utf8.encode_of_decode spelled] at classSize
  rw [← eq_headerBlock_of_decodeHeaders block] at headersSize
  have size := valid.size_le
  rw [length_bytes] at size
  refine ⟨?_, ?_, ?_⟩
  · change className.utf8ByteSize ≤ 65535
    omega
  · change blockSize headers ≤ 65535
    omega
  · rw [wireSize, valid.isResponse_toFrame, toFrame]
    dsimp only
    omega

theorem Valid.bytes_normal (valid : p.Valid version) (layout : version = .v2 → p.layout = 1)
    (switches : version = .v2 → p.switches = 0) (commandVersion : p.commandVersion = 1)
    (command : (p.type, p.code) ∈ [(1, 1), (2, 1), (0, 2), (1, 0)]) :
    p.normal.bytes version = p.bytes version := by
  have checksum : p.checksum = [] := by
    rw [← List.length_eq_zero_iff, valid.checksum]
    cases version with
    | v1 => rfl
    | v2 =>
      rw [checksumSize, switches rfl]
      rfl
  have same : ((commandOf (kindOf (UInt8.ofNat p.type) p.code)).1.toNat,
      (commandOf (kindOf (UInt8.ofNat p.type) p.code)).2) = (p.type, p.code) := by
    simp only [List.mem_cons, List.not_mem_nil, or_false, Prod.mk.injEq] at command
    obtain ⟨type, code⟩ | ⟨type, code⟩ | ⟨type, code⟩ | ⟨type, code⟩ := command
    all_goals
      rw [type, code]
      rfl
  obtain ⟨type, code⟩ := Prod.mk.inj same
  rw [normal, type, code]
  cases version with
  | v1 =>
    rw [bytes, bytes, fields, fields, commandVersion, checksum]
    rfl
  | v2 =>
    rw [bytes, bytes, fields, fields, commandVersion, checksum, layout rfl, switches rfl]
    rfl

end Packet

/-- A frame in the one form that is written: layout and command version are the only ones there are, no
switch is on, and the command is one of the four. -/
structure Canonical (version : Version) (wire : Bytes) : Prop where
  commandVersion : Bytes.numberAt wire (version.typeOffset + 3) 1 = 1
  layout : version = .v2 → Bytes.numberAt wire 1 1 = 1
  switches : version = .v2 → Bytes.numberAt wire 11 1 = 0
  command : (Bytes.numberAt wire version.typeOffset 1, Bytes.numberAt wire (version.typeOffset + 1) 2) ∈
    [(1, 1), (2, 1), (0, 2), (1, 0)]

/-- Encoding a decoded frame succeeds. In canonical form it gives the very bytes back, and in any form
bytes that are decoded to the same frame. -/
theorem encode_undoes_decode (version : Version) :
    (∀ wire frame, decode version wire = .frame frame [] → Canonical version wire →
      encode version frame = .ok wire) ∧
    ∀ buffer frame rest, decode version buffer = .frame frame rest →
      ∃ wire, encode version frame = .ok wire ∧ decode version wire = .frame frame [] := by
  refine ⟨?_, ?_⟩
  · intro wire frame taken canonical
    obtain ⟨p, valid, read, whole⟩ := exists_packet taken
    obtain ⟨className, headers, spelled, block, rfl⟩ := Packet.frame?_eq_ok_iff.mp read
    have stands := valid.stands []
    rw [← whole] at stands
    have same := valid.bytes_normal (fun second => stands.layout second ▸ canonical.layout second)
      (fun second => stands.switches second ▸ canonical.switches second)
      (stands.commandVersion ▸ canonical.commandVersion) (stands.type ▸ stands.code ▸ canonical.command)
    rw [encode_of_fits (valid.fits_toFrame spelled block), valid.ofFrame_toFrame spelled block, same,
      whole, List.append_nil]
  · intro buffer frame rest taken
    obtain ⟨p, valid, read, -⟩ := exists_packet taken
    obtain ⟨className, headers, spelled, block, rfl⟩ := Packet.frame?_eq_ok_iff.mp read
    have fits := valid.fits_toFrame spelled block
    have again := Packet.decode_bytes (Packet.valid_ofFrame fits) []
    rw [Packet.frame?_ofFrame fits, valid.carried_toFrame, List.append_nil] at again
    exact ⟨_, encode_of_fits fits, again⟩

/-- A call in canonical form, and a request with an unknown code, switches and a checksum. -/
theorem call_and_checked_request_survive :
    encode .v1 ⟨.oneway, 5, 9, "a", 0, 1, [], [42]⟩ =
      .ok [1, 2, 0, 1, 1, 0, 0, 0, 5, 1, 0, 0, 0, 9, 0, 1, 0, 0, 0, 0, 0, 1, 97, 42] ∧
    ∃ wire, encode .v2 ⟨.request, 5, 9, "a", 0, 1, [("", "b")], [42]⟩ = .ok wire ∧
      decode .v2 wire = .frame ⟨.request, 5, 9, "a", 0, 1, [("", "b")], [42]⟩ [] := by
  have called : decode .v1
      [1, 2, 0, 1, 1, 0, 0, 0, 5, 1, 0, 0, 0, 9, 0, 1, 0, 0, 0, 0, 0, 1, 97, 42] =
      .frame ⟨.oneway, 5, 9, "a", 0, 1, [], [42]⟩ [] := by decide +kernel
  have canonical : Canonical .v1
      [1, 2, 0, 1, 1, 0, 0, 0, 5, 1, 0, 0, 0, 9, 0, 1, 0, 0, 0, 0, 0, 1, 97, 42] :=
    ⟨by decide, Version.noConfusion, Version.noConfusion, by decide⟩
  have checked : decode .v2 [2, 9, 1, 0, 7, 3, 0, 0, 0, 5, 1, 3, 0, 0, 0, 9, 0, 1, 0, 9, 0, 0, 0, 1, 97,
      0, 0, 0, 0, 0, 0, 0, 1, 98, 42, 1, 2, 3, 4] =
      .frame ⟨.request, 5, 9, "a", 0, 1, [("", "b")], [42]⟩ [] := by decide +kernel
  exact ⟨(encode_undoes_decode .v1).1 _ _ called canonical,
    (encode_undoes_decode .v2).2 _ _ [] checked⟩

end RpcClient.Bolt
