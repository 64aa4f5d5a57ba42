import RpcClient.Proofs.Bolt.HeaderBlock

/-! Frames as they stand on the wire, field by field. Decoding a packet reads its fields whatever
follows, and a buffer that gives a frame starts with a packet. -/
namespace RpcClient.Bolt

/-- A frame on the wire. The first generation carries neither layout nor switches. -/
structure Packet where
  layout : Nat
  type : Nat
  code : Nat
  commandVersion : Nat
  requestId : Nat
  serialization : Nat
  switches : Nat
  /-- The timeout of a request, or the status of a response. -/
  term : Nat
  className : Bytes
  headers : Bytes
  body : Bytes
  checksum : Bytes

namespace Packet

variable {version : Version} {p : Packet} {buffer rest : Bytes} {frame : Frame}

def isResponse (p : Packet) : Bool := p.type == 0

/-- The fixed part as numbers, each behind its width. -/
def fields (version : Version) (p : Packet) : List (Nat × Nat) :=
  let behind := [(if p.isResponse then 2 else 4, p.term), (2, p.className.length),
    (2, p.headers.length), (4, p.body.length)]
  match version with
  | .v1 => [(1, 1), (1, p.type), (2, p.code), (1, p.commandVersion), (4, p.requestId),
      (1, p.serialization)] ++ behind
  | .v2 => [(1, 2), (1, p.layout), (1, p.type), (2, p.code), (1, p.commandVersion), (4, p.requestId),
      (1, p.serialization), (1, p.switches)] ++ behind

def lengths (p : Packet) : Lengths :=
  ⟨p.className.length, p.headers.length, p.body.length, p.checksum.length⟩

def bytes (version : Version) (p : Packet) : Bytes :=
  Bytes.row (p.fields version) ++ (p.className ++ (p.headers ++ (p.body ++ p.checksum)))

def checksumSize (version : Version) (p : Packet) : Nat :=
  match version with
  | .v1 => 0
  | .v2 => if p.switches % 2 = 1 then 4 else 0

/-- Every number fits its width, there is a checksum where the switches ask for one, and the whole is
not too large. -/
structure Valid (version : Version) (p : Packet) : Prop where
  fits : ∀ field ∈ p.fields version, field.2 < Nat.pow 256 field.1
  type_le : p.type ≤ 2
  checksum : p.checksum.length = p.checksumSize version
  size_le : (p.bytes version).length ≤ Frame.maxSize

/-- The frame that the fields stand for, with the texts that its bytes spell. -/
def toFrame (p : Packet) (className : String) (headers : List (String × String)) : Frame where
  kind := kindOf (UInt8.ofNat p.type) p.code
  requestId := UInt64.ofNat p.requestId
  timeoutMs := if p.isResponse then 0 else UInt32.ofNat p.term
  className
  status := if p.isResponse then UInt16.ofNat p.term else 0
  serialization := UInt8.ofNat p.serialization
  headers
  body := p.body

def frame? (p : Packet) : Except WireError Frame := do
  let className ←
    match Utf8.decode p.className with
    | .ok text => pure text
    | .error _ => throw (.invalidFrameHeader .classNotText)
  let headers ← decodeHeaders p.headers
  return p.toFrame className headers

theorem frame?_eq_ok_iff : p.frame? = .ok frame ↔ ∃ className headers,
    Utf8.decode p.className = .ok className ∧ decodeHeaders p.headers = .ok headers ∧
      p.toFrame className headers = frame := by
  rw [frame?]
  cases Utf8.decode p.className with
  | error error =>
    constructor
    · intro read
      cases read
    · rintro ⟨_, _, read, -⟩
      cases read
  | ok className =>
    cases decodeHeaders p.headers with
    | error error =>
      constructor
      · intro read
        cases read
      · rintro ⟨_, _, -, read, -⟩
        cases read
    | ok headers =>
      constructor
      · intro read
        cases read
        exact ⟨className, headers, rfl, rfl, rfl⟩
      · rintro ⟨_, _, ⟨⟩, ⟨⟩, rfl⟩
        rfl

theorem length_row_fields (version : Version) (p : Packet) :
    (Bytes.row (p.fields version)).length = version.fixedSize p.isResponse := by
  cases version
  all_goals
    simp only [fields, List.cons_append, List.nil_append, Bytes.row_cons, List.length_append,
      Bytes.length_bigEndian]
    cases p.isResponse <;> rfl

theorem length_bytes (version : Version) (p : Packet) :
    (p.bytes version).length = version.fixedSize p.isResponse + p.className.length + p.headers.length +
      p.body.length + p.checksum.length := by
  rw [bytes, List.length_append, length_row_fields]
  simp only [List.length_append]
  omega

/-- What is read at the places of the fields. -/
structure Stands (version : Version) (p : Packet) (buffer : Bytes) : Prop where
  type : Bytes.numberAt buffer version.typeOffset 1 = p.type
  code : Bytes.numberAt buffer (version.typeOffset + 1) 2 = p.code
  commandVersion : Bytes.numberAt buffer (version.typeOffset + 3) 1 = p.commandVersion
  requestId : Bytes.numberAt buffer (version.typeOffset + 4) 4 = p.requestId
  serialization : Bytes.numberAt buffer (version.typeOffset + 8) 1 = p.serialization
  term : Bytes.numberAt buffer (version.typeOffset + 9 + version.switches.length)
    (if p.isResponse then 2 else 4) = p.term
  lengths : Lengths.read version (version.fixedSize p.isResponse) buffer = p.lengths
  layout : version = .v2 → Bytes.numberAt buffer 1 1 = p.layout
  switches : version = .v2 → Bytes.numberAt buffer 11 1 = p.switches

theorem Valid.stands (valid : p.Valid version) (rest : Bytes) :
    p.Stands version (p.bytes version ++ rest) := by
  have read := Bytes.numbersFrom_row (p.fields version) []
    (p.className ++ (p.headers ++ (p.body ++ p.checksum)) ++ rest) valid.fits
  have checksum := valid.checksum
  rw [List.nil_append, ← List.append_assoc] at read
  change Bytes.numbersFrom (p.bytes version ++ rest) 0 _ = _ at read
  generalize p.bytes version ++ rest = buffer at read
  cases version with
  | v1 =>
    simp only [fields, List.map_cons, List.map_nil, List.cons_append, List.nil_append,
      Bytes.numbersFrom, List.cons.injEq] at read
    obtain ⟨-, type, code, commandVersion, requestId, serialization, term, className, headers, body,
      -⟩ := read
    refine ⟨type, code, commandVersion, requestId, serialization, term, ?_, Version.noConfusion,
      Version.noConfusion⟩
    rw [Lengths.read, lengths, checksum, Lengths.mk.injEq]
    generalize p.isResponse = response at *
    cases response <;> exact ⟨className, headers, body, rfl⟩
  | v2 =>
    simp only [fields, List.map_cons, List.map_nil, List.cons_append, List.nil_append,
      Bytes.numbersFrom, List.cons.injEq] at read
    obtain ⟨-, layout, type, code, commandVersion, requestId, serialization, switches, term, className,
      headers, body, -⟩ := read
    refine ⟨type, code, commandVersion, requestId, serialization, term, ?_, fun _ => layout,
      fun _ => switches⟩
    rw [Lengths.read, lengths, checksum, checksumSize, Lengths.mk.injEq, ← switches]
    generalize p.isResponse = response at *
    cases response <;> exact ⟨className, headers, body, rfl⟩

theorem getElem?_type (version : Version) (p : Packet) (rest : Bytes) :
    (p.bytes version ++ rest)[version.typeOffset]? = some (UInt8.ofNat p.type) := by
  cases version <;> simp [bytes, fields, Bytes.row, Bytes.bigEndian, Version.typeOffset]

theorem exists_bytes_append_eq_cons (version : Version) (p : Packet) (rest : Bytes) :
    ∃ behind, p.bytes version ++ rest = version.protocolNumber :: behind := by
  cases version <;> exact ⟨_, rfl⟩

theorem Valid.type_cases (valid : p.Valid version) :
    ¬ UInt8.ofNat p.type > 2 ∧ (UInt8.ofNat p.type == 0) = p.isResponse := by
  obtain type | type | type : p.type = 0 ∨ p.type = 1 ∨ p.type = 2 := by
    have := valid.type_le
    omega
  all_goals
    rw [isResponse, type]
    decide

theorem Stands.readFrame (stands : p.Stands version buffer) (more : Bytes) :
    Bolt.readFrame version p.isResponse p.lengths buffer
      (p.className ++ (p.headers ++ (p.body ++ more))) = p.frame? := by
  have term := stands.term
  rw [Bolt.readFrame, frame?, Packet.lengths, List.take_left, List.drop_left]
  cases Utf8.decode p.className with
  | error error => rfl
  | ok className =>
    simp only [toFrame, List.take_left, List.drop_left, stands.type, stands.code, stands.requestId,
      stands.serialization]
    cases response : p.isResponse
    all_goals
      simp only [response, Bool.false_eq_true, if_false, if_true] at term
      simp only [Bool.false_eq_true, if_false, if_true, term]

/-- Decoding takes a packet off the buffer, whatever follows it. -/
theorem decode_bytes (valid : p.Valid version) (rest : Bytes) :
    decode version (p.bytes version ++ rest) =
      match p.frame? with
      | .ok frame => .frame frame rest
      | .error error => .failed error rest := by
  have stands := valid.stands rest
  have type := p.getElem?_type version rest
  obtain ⟨known, response⟩ := valid.type_cases
  have fixed : Bytes.dropExactly (version.fixedSize p.isResponse) (p.bytes version ++ rest) =
      some (p.className ++ (p.headers ++ (p.body ++ (p.checksum ++ rest)))) := by
    rw [← length_row_fields, bytes]
    simp only [List.append_assoc]
    exact Bytes.dropExactly_append _ _
  have whole : Bytes.dropExactly p.lengths.sum
      (p.className ++ (p.headers ++ (p.body ++ (p.checksum ++ rest)))) = some rest := by
    have cut := Bytes.dropExactly_append (p.className ++ p.headers ++ p.body ++ p.checksum) rest
    simpa only [lengths, Lengths.sum, List.length_append, List.append_assoc, Nat.add_assoc] using cut
  have size := valid.size_le
  rw [length_bytes] at size
  have small : Frame.checkSize (version.fixedSize p.isResponse + p.lengths.sum) = .ok () := by
    rw [Frame.checkSize_eq_ok_iff]
    simpa only [lengths, Lengths.sum, Nat.add_assoc] using size
  have read := stands.readFrame (p.checksum ++ rest)
  have lengths := stands.lengths
  obtain ⟨behind, cons⟩ := p.exists_bytes_append_eq_cons version rest
  rw [cons] at fixed type lengths read ⊢
  rw [decode.eq_def]
  simp only [ne_eq, not_true_eq_false, if_false, type, known, response, fixed, lengths, small, whole,
    read]
  cases p.frame? <;> rfl

end Packet

/-! ### What decoding can do -/

/-- The lengths declared by a buffer that starts with a frame of this type. -/
def declared (version : Version) (type : UInt8) (buffer : Bytes) : Lengths :=
  Lengths.read version (version.fixedSize (type == 0)) buffer

/-- A whole frame of a known type and an admissible size starts the buffer. `parts` are the bytes behind
its fixed part, and `rest` those behind the frame. -/
structure Starts (version : Version) (type : UInt8) (buffer parts rest : Bytes) : Prop where
  protocol : buffer[0]? = some version.protocolNumber
  command : buffer[version.typeOffset]? = some type
  known : type ≤ 2
  fixed : Bytes.dropExactly (version.fixedSize (type == 0)) buffer = some parts
  size_le : version.fixedSize (type == 0) + (declared version type buffer).sum ≤ Frame.maxSize
  whole : Bytes.dropExactly (declared version type buffer).sum parts = some rest

/-- The packet at the front of a buffer. -/
def Packet.front (version : Version) (type : UInt8) (buffer parts : Bytes) : Packet :=
  let offset := version.typeOffset
  let lengths := declared version type buffer
  let behindClass := parts.drop lengths.className
  let behindHeaders := behindClass.drop lengths.headers
  { layout := Bytes.numberAt buffer 1 1
    type := type.toNat
    code := Bytes.numberAt buffer (offset + 1) 2
    commandVersion := Bytes.numberAt buffer (offset + 3) 1
    requestId := Bytes.numberAt buffer (offset + 4) 4
    serialization := Bytes.numberAt buffer (offset + 8) 1
    switches := Bytes.numberAt buffer 11 1
    term := Bytes.numberAt buffer (offset + 9 + version.switches.length) (if type == 0 then 2 else 4)
    className := parts.take lengths.className
    headers := behindClass.take lengths.headers
    body := behindHeaders.take lengths.body
    checksum := (behindHeaders.drop lengths.body).take lengths.checksum }

namespace Starts

variable {type : UInt8} {parts : Bytes}

theorem isResponse_front (version : Version) (type : UInt8) (buffer parts : Bytes) :
    (Packet.front version type buffer parts).isResponse = (type == 0) := by
  rw [Bool.eq_iff_iff, Packet.isResponse, beq_iff_eq, beq_iff_eq, ← UInt8.toNat_inj]
  rfl

theorem lengths_front (starts : Starts version type buffer parts rest) :
    (Packet.front version type buffer parts).lengths = declared version type buffer := by
  have enough := Bytes.length_of_dropExactly starts.whole
  rw [Lengths.sum] at enough
  simp only [Packet.lengths, Packet.front, List.length_take, List.length_drop]
  generalize declared version type buffer = lengths at enough ⊢
  obtain ⟨className, headers, body, checksum⟩ := lengths
  rw [Lengths.mk.injEq]
  dsimp only at enough ⊢
  omega

theorem numbersFrom_front (starts : Starts version type buffer parts rest) :
    Bytes.numbersFrom buffer 0
        (((Packet.front version type buffer parts).fields version).map Prod.fst) =
      ((Packet.front version type buffer parts).fields version).map Prod.snd := by
  have lengths := starts.lengths_front
  have response := isResponse_front version type buffer parts
  have protocol := Bytes.numberAt_one starts.protocol
  have typeNumber := Bytes.numberAt_one starts.command
  have term : (Packet.front version type buffer parts).term = Bytes.numberAt buffer
      (version.typeOffset + 9 + version.switches.length) (if type == 0 then 2 else 4) := rfl
  rw [Packet.lengths, declared, Lengths.read.eq_def, Lengths.mk.injEq] at lengths
  obtain ⟨className, headers, body, -⟩ := lengths
  cases version with
  | v1 =>
    simp only [Packet.fields, List.map_cons, List.map_nil, List.cons_append, List.nil_append,
      Bytes.numbersFrom, className, headers, body, response, term]
    cases type == 0
    all_goals exact congr (congrArg List.cons protocol) (congr (congrArg List.cons typeNumber) rfl)
  | v2 =>
    simp only [Packet.fields, List.map_cons, List.map_nil, List.cons_append, List.nil_append,
      Bytes.numbersFrom, className, headers, body, response, term]
    cases type == 0
    all_goals
      exact congr (congrArg List.cons protocol)
        (congr (congrArg List.cons rfl) (congr (congrArg List.cons typeNumber) rfl))

theorem bytes_front (starts : Starts version type buffer parts rest) :
    (Packet.front version type buffer parts).bytes version ++ rest = buffer := by
  have size := Bytes.length_of_dropExactly starts.fixed
  have width := Packet.length_row_fields version (Packet.front version type buffer parts)
  rw [isResponse_front] at width
  have row := Bytes.row_of_numbersFrom _ starts.numbersFrom_front (by omega)
  have behind := Bytes.eq_append_of_dropExactly starts.whole
  rw [Lengths.sum, List.take_add, List.take_add, List.take_add] at behind
  simp only [← List.drop_drop, List.append_assoc] at behind
  rw [Packet.bytes, row, width, List.drop_zero]
  simp only [Packet.front, List.append_assoc]
  rw [← behind, ← Bytes.eq_append_of_dropExactly starts.fixed]

theorem valid_front (starts : Starts version type buffer parts rest) :
    (Packet.front version type buffer parts).Valid version := by
  have size := Bytes.length_of_dropExactly starts.fixed
  have size' := Bytes.length_of_dropExactly starts.whole
  refine ⟨Bytes.lt_of_numbersFrom _ starts.numbersFrom_front, starts.known, ?_, ?_⟩
  · have checksum := congrArg Lengths.checksum starts.lengths_front
    cases version <;> exact checksum
  · have length := congrArg List.length starts.bytes_front
    have bound := starts.size_le
    rw [List.length_append] at length
    omega

end Starts

theorem declared_append (type : UInt8) (more : Bytes)
    (inside : version.fixedSize (type == 0) ≤ buffer.length) :
    declared version type (buffer ++ more) = declared version type buffer := by
  have least : 20 ≤ version.fixedSize (type == 0) := by
    cases version <;> cases type == 0 <;> decide
  rw [declared, declared, Lengths.read.eq_def, Lengths.read.eq_def,
    Bytes.numberAt_append (by omega), Bytes.numberAt_append (by omega),
    Bytes.numberAt_append (by omega), Bytes.numberAt_append (by omega)]

/-- Decoding waits for bytes, or stops at an error that no more bytes undo, or finds a packet. -/
theorem decode_cases (version : Version) (buffer : Bytes) :
    decode version buffer = .incomplete ∨
    (∃ error, ∀ more, decode version (buffer ++ more) = .failed error (buffer ++ more)) ∨
    ∃ (p : Packet) (rest : Bytes), p.Valid version ∧ buffer = p.bytes version ++ rest := by
  -- in the order of the checks: each looks only at bytes that are there, so more of them behind do
  -- not change its outcome
  cases buffer with
  | nil => exact .inl rfl
  | cons first behind =>
  by_cases other : first ≠ version.protocolNumber
  · refine .inr (.inl ⟨.unknownProtocol first.toUInt16, fun more => ?_⟩)
    rw [List.cons_append, decode, if_pos other]
  cases here : (first :: behind)[version.typeOffset]? with
  | none =>
    left
    simp only [decode, other, here, if_false]
  | some type =>
  have here' : ∀ more, (first :: (behind ++ more))[version.typeOffset]? = some type := by
    intro more
    rw [← List.cons_append, List.getElem?_append_left (List.getElem?_eq_some_iff.mp here).1, here]
  by_cases unknown : type > 2
  · refine .inr (.inl ⟨.invalidFrameHeader (.unknownCommandType type), fun more => ?_⟩)
    simp only [List.cons_append, decode, other, here', unknown, if_false, if_true]
  cases cut : Bytes.dropExactly (version.fixedSize (type == 0)) (first :: behind) with
  | none =>
    left
    simp only [decode, other, here, unknown, cut, if_false]
  | some parts =>
  have inside : version.fixedSize (type == 0) ≤ (first :: behind).length :=
    Nat.le.intro ((Nat.add_comm _ _).trans (Bytes.length_of_dropExactly cut))
  have cut' : ∀ more, Bytes.dropExactly (version.fixedSize (type == 0)) (first :: (behind ++ more)) =
      some (parts ++ more) := Bytes.dropExactly_append_of_eq_some cut
  have lengths : Lengths.read version (version.fixedSize (type == 0)) (first :: behind) =
      declared version type (first :: behind) := rfl
  have lengths' : ∀ more,
      Lengths.read version (version.fixedSize (type == 0)) (first :: (behind ++ more)) =
        declared version type (first :: behind) := fun more => declared_append type more inside
  cases small : Frame.checkSize
      (version.fixedSize (type == 0) + (declared version type (first :: behind)).sum) with
  | error error =>
    refine .inr (.inl ⟨error, fun more => ?_⟩)
    simp only [List.cons_append, decode, other, here', unknown, cut', lengths', small, if_false]
  | ok =>
  cases whole : Bytes.dropExactly (declared version type (first :: behind)).sum parts with
  | none =>
    left
    simp only [decode, other, here, unknown, cut, lengths, small, whole, if_false]
  | some rest =>
    have protocol : (first :: behind)[0]? = some version.protocolNumber :=
      congrArg some (Decidable.not_not.mp other)
    have starts : Starts version type (first :: behind) parts rest :=
      ⟨protocol, here, UInt8.not_lt.mp unknown, cut, Frame.checkSize_eq_ok_iff.mp small, whole⟩
    exact .inr (.inr ⟨_, rest, starts.valid_front, starts.bytes_front.symm⟩)

theorem exists_packet (taken : decode version buffer = .frame frame rest) :
    ∃ p : Packet, p.Valid version ∧ p.frame? = .ok frame ∧ buffer = p.bytes version ++ rest := by
  obtain waits | ⟨error, failed⟩ | ⟨p, rest', valid, rfl⟩ := decode_cases version buffer
  · rw [waits] at taken
    cases taken
  · have stopped := failed []
    rw [List.append_nil, taken] at stopped
    cases stopped
  · rw [Packet.decode_bytes valid] at taken
    cases read : p.frame? with
    | ok frame' =>
      rw [read] at taken
      cases taken
      exact ⟨p, valid, read, rfl⟩
    | error error =>
      rw [read] at taken
      cases taken

end RpcClient.Bolt
