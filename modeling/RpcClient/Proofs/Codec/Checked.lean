import RpcClient.Proofs.Codec.Decodes

/-! Decoding with every access checked: reading a byte that is not there, or cutting off more bytes than there
are, gives nothing at all. The tests in front of the accesses suffice, so decoding never comes to that, and is
what it is without checks. -/
namespace RpcClient

/-- An action that may fail, and that gives nothing at all when it reaches out of its bytes. -/
abbrev Checked (α : Type) := ExceptT WireError Option α

namespace Checked

variable {α β : Type}

theorem access_bind {access : Option α} {a : α} (inside : access = some a) (f : α → Checked β) :
    ((liftM access : Checked α) >>= f) = f a := by
  rw [inside]
  rfl

theorem run_bind {action : Checked α} {result : Except WireError α} (inside : action.run = some result)
    {f : α → Checked β} {g : α → Except WireError β} (behind : ∀ a, (f a).run = some (g a)) :
    (action >>= f).run = some (result >>= g) := by
  rw [ExceptT.run_bind, inside]
  cases result with
  | error error => rfl
  | ok a => exact behind a

end Checked

namespace Bytes

variable {front : Bytes}

def numberAt? (bytes : Bytes) (offset width : Nat) : Option Nat :=
  if offset + width ≤ bytes.length then some (numberAt bytes offset width) else none

/-- Cuts bytes off the front. -/
def split? (count : Nat) (bytes : Bytes) : Option (Bytes × Bytes) :=
  if count ≤ bytes.length then some (bytes.splitAt count) else none

/-- Takes a number off the front. -/
def takeNumber? (width : Nat) (bytes : Bytes) : Option (Nat × Bytes) :=
  (split? width bytes).map fun (front, rest) => (toNat front, rest)

theorem numberAt?_eq_some {bytes : Bytes} {offset width : Nat} (inside : offset + width ≤ bytes.length) :
    numberAt? bytes offset width = some (numberAt bytes offset width) := if_pos inside

theorem split?_eq_some {count : Nat} {bytes : Bytes} (inside : count ≤ bytes.length) :
    split? count bytes = some (bytes.take count, bytes.drop count) := by
  rw [split?, if_pos inside, List.splitAt_eq]

theorem split?_append {count : Nat} (size : front.length = count) (rest : Bytes) :
    split? count (front ++ rest) = some (front, rest) := by
  subst size
  rw [split?_eq_some (by simp), List.take_left, List.drop_left]

theorem split?_drop {start count : Nat} {bytes : Bytes} (inside : start + count ≤ bytes.length) :
    split? count (bytes.drop start) = some ((bytes.drop start).take count, bytes.drop (start + count)) := by
  rw [split?_eq_some (by rw [List.length_drop]; omega), List.drop_drop]

theorem takeNumber?_drop {start width : Nat} {bytes : Bytes} (inside : start + width ≤ bytes.length) :
    takeNumber? width (bytes.drop start) =
      some (numberAt bytes start width, bytes.drop (start + width)) := by
  rw [takeNumber?, split?_drop inside]
  rfl

theorem takeNumber?_bigEndian {width n : Nat} (fits : n < Nat.pow 256 width) (rest : Bytes) :
    takeNumber? width (bigEndian width n ++ rest) = some (n, rest) := by
  rw [takeNumber?, split?_append (length_bigEndian width n), Option.map_some]
  dsimp only
  rw [toNat_bigEndian fits]

end Bytes

namespace Bolt

variable {version : Version}

def takeText? (part : String) (block : Bytes) : Checked (String × Bytes) :=
  if block.length < 4 then throw (.invalidFrameHeader (.truncatedLength part))
  else do
    let (size, rest) ← Bytes.takeNumber? 4 block
    if rest.length < size then throw (.invalidFrameHeader (.truncated part))
    else do
      let (raw, behind) ← Bytes.split? size rest
      match Utf8.decode raw with
      | .error _ => throw (.invalidFrameHeader (.notText part))
      | .ok text => return (text, behind)

def decodeHeadersWithin? : (fuel : Nat) → (headers : List (String × String)) → Bytes →
    Checked (List (String × String))
  | 0, headers, _ => return headers.reverse
  | fuel + 1, headers, block =>
    if block.isEmpty then return headers.reverse
    else do
      let (key, block) ← takeText? "header key" block
      let (value, block) ← takeText? "header value" block
      decodeHeadersWithin? fuel ((key, value) :: headers) block

def decodeHeaders? (block : Bytes) : Checked (List (String × String)) :=
  decodeHeadersWithin? block.length [] block

/-- Reads a whole frame, field by field. -/
def readFrame? (version : Version) (isResponse : Bool) (lengths : Lengths) (raw : Bytes) :
    Checked Frame := do
  let (_, raw) ← Bytes.split? version.typeOffset raw
  let (type, raw) ← Bytes.takeNumber? 1 raw
  let (code, raw) ← Bytes.takeNumber? 2 raw
  let (_, raw) ← Bytes.takeNumber? 1 raw
  let (requestId, raw) ← Bytes.takeNumber? 4 raw
  let (serialization, raw) ← Bytes.takeNumber? 1 raw
  let (_, raw) ← Bytes.split? version.switches.length raw
  let (term, raw) ← Bytes.takeNumber? (if isResponse then 2 else 4) raw
  let (_, raw) ← Bytes.split? 8 raw
  let (className, raw) ← Bytes.split? lengths.className raw
  let className ←
    match Utf8.decode className with
    | .ok text => pure text
    | .error _ => throw (.invalidFrameHeader .classNotText)
  let (headers, raw) ← Bytes.split? lengths.headers raw
  let headers ← decodeHeaders? headers
  let (body, _) ← Bytes.split? lengths.body raw
  return {
    kind := kindOf (UInt8.ofNat type) code
    requestId := UInt64.ofNat requestId
    timeoutMs := if isResponse then 0 else UInt32.ofNat term
    className
    status := if isResponse then UInt16.ofNat term else 0
    serialization := UInt8.ofNat serialization
    headers
    body }

/-- Reads the lengths in a fixed part of `fixedSize` bytes. -/
def readLengths? (version : Version) (fixedSize : Nat) (buffer : Bytes) : Option Lengths := do
  let className ← Bytes.numberAt? buffer (fixedSize - 8) 2
  let headers ← Bytes.numberAt? buffer (fixedSize - 6) 2
  let body ← Bytes.numberAt? buffer (fixedSize - 4) 4
  let checksum ←
    match version with
    | .v1 => some 0
    | .v2 => (Bytes.numberAt? buffer 11 1).map fun switches => if switches % 2 = 1 then 4 else 0
  return { className, headers, body, checksum }

/-- Goes on behind a known type. -/
def decodeTyped? (version : Version) (type : UInt8) (buffer : Bytes) : Option Decoded :=
  let fixedSize := version.fixedSize (type == 0)
  if buffer.length < fixedSize then some .incomplete
  else do
    let lengths ← readLengths? version fixedSize buffer
    let size := fixedSize + lengths.sum
    match Frame.checkSize size with
    | .error error => some (.failed error buffer)
    | .ok () =>
      if buffer.length < size then some .incomplete
      else do
        let (raw, rest) ← Bytes.split? size buffer
        match ← (readFrame? version (type == 0) lengths raw).run with
        | .error error => some (.failed error rest)
        | .ok frame => some (.frame frame rest)

def decode? (version : Version) (buffer : Bytes) : Option Decoded :=
  if buffer.isEmpty then some .incomplete
  else do
    let first ← buffer[0]?
    if first ≠ version.protocolNumber then some (.failed (.unknownProtocol first.toUInt16) buffer)
    else if buffer.length ≤ version.typeOffset then some .incomplete
    else do
      let type ← buffer[version.typeOffset]?
      if type > 2 then some (.failed (.invalidFrameHeader (.unknownCommandType type)) buffer)
      else decodeTyped? version type buffer

theorem Version.le_fixedSize (version : Version) (isResponse : Bool) :
    20 ≤ version.fixedSize isResponse := by
  cases version <;> cases isResponse <;> decide

theorem run_takeText? (part : String) (block : Bytes) :
    (takeText? part block).run = some (takeText part block) := by
  rw [takeText, Bytes.dropExactly_eq_ite]
  by_cases four : 4 ≤ block.length
  · have size : Bytes.takeNumber? 4 block = some (Bytes.numberAt block 0 4, block.drop 4) :=
      Bytes.takeNumber?_drop (Nat.le_trans (Nat.le_of_eq (Nat.zero_add 4)) four)
    rw [takeText?, if_neg (Nat.not_lt.mpr four), if_pos four, Checked.access_bind size]
    dsimp only
    rw [Bytes.dropExactly_eq_ite]
    by_cases enough : Bytes.numberAt block 0 4 ≤ (block.drop 4).length
    · rw [if_neg (Nat.not_lt.mpr enough), if_pos enough,
        Checked.access_bind (Bytes.split?_eq_some enough)]
      dsimp only
      cases Utf8.decode ((block.drop 4).take (Bytes.numberAt block 0 4)) <;> rfl
    · rw [if_pos (Nat.not_le.mp enough), if_neg enough]
      rfl
  · rw [takeText?, if_pos (Nat.not_le.mp four), if_neg four]
    rfl

theorem run_decodeHeadersWithin? (fuel : Nat) (headers : List (String × String)) (block : Bytes) :
    (decodeHeadersWithin? fuel headers block).run = some (decodeHeadersWithin fuel headers block) := by
  induction fuel generalizing headers block with
  | zero => rfl
  | succ fuel ih =>
    rw [decodeHeadersWithin?, decodeHeadersWithin]
    split
    · rfl
    · refine Checked.run_bind (run_takeText? _ _) ?_
      rintro ⟨key, rest⟩
      refine Checked.run_bind (run_takeText? _ _) ?_
      rintro ⟨value, rest⟩
      exact ih ((key, value) :: headers) rest

theorem run_decodeHeaders? (block : Bytes) :
    (decodeHeaders? block).run = some (decodeHeaders block) :=
  run_decodeHeadersWithin? _ _ _

theorem readLengths?_eq_some {type : UInt8} {buffer : Bytes}
    (inside : version.fixedSize (type == 0) ≤ buffer.length) :
    readLengths? version (version.fixedSize (type == 0)) buffer = some (declared version type buffer) := by
  have least : 20 ≤ version.fixedSize (type == 0) := version.le_fixedSize _
  rw [readLengths?, Bytes.numberAt?_eq_some (by omega), Bytes.numberAt?_eq_some (by omega),
    Bytes.numberAt?_eq_some (by omega)]
  cases version with
  | v1 => rfl
  | v2 =>
    rw [Bytes.numberAt?_eq_some (by omega)]
    rfl

/-- The fields that are read, between bytes that are stepped over. -/
theorem Packet.exists_bytes_eq (version : Version) (p : Packet) :
    ∃ opening switches sizes : Bytes, opening.length = version.typeOffset ∧
      switches.length = version.switches.length ∧ sizes.length = 8 ∧
      p.bytes version = opening ++ (Bytes.bigEndian 1 p.type ++ (Bytes.bigEndian 2 p.code ++
        (Bytes.bigEndian 1 p.commandVersion ++ (Bytes.bigEndian 4 p.requestId ++
          (Bytes.bigEndian 1 p.serialization ++ (switches ++
            (Bytes.bigEndian (if p.isResponse then 2 else 4) p.term ++ (sizes ++
              (p.className ++ (p.headers ++ (p.body ++ p.checksum))))))))))) := by
  let sizes := Bytes.bigEndian 2 p.className.length ++ (Bytes.bigEndian 2 p.headers.length ++
    Bytes.bigEndian 4 p.body.length)
  cases version with
  | v1 =>
    refine ⟨Bytes.bigEndian 1 1, [], sizes, rfl, rfl, rfl, ?_⟩
    simp only [bytes, fields, sizes, List.cons_append, Bytes.row_cons, List.append_assoc, List.nil_append]
    rfl
  | v2 =>
    refine ⟨Bytes.bigEndian 1 2 ++ Bytes.bigEndian 1 p.layout, Bytes.bigEndian 1 p.switches, sizes, rfl,
      rfl, rfl, ?_⟩
    simp only [bytes, fields, sizes, List.cons_append, Bytes.row_cons, List.append_assoc, List.nil_append]
    rfl

theorem run_readFrame? {p : Packet} (valid : p.Valid version) :
    (readFrame? version p.isResponse p.lengths (p.bytes version)).run = some p.frame? := by
  have fits : ∀ width n, (width, n) ∈ p.fields version → n < Nat.pow 256 width :=
    fun width n member => valid.fits (width, n) member
  have type := fits 1 p.type (by cases version <;> simp [Packet.fields])
  have code := fits 2 p.code (by cases version <;> simp [Packet.fields])
  have commandVersion := fits 1 p.commandVersion (by cases version <;> simp [Packet.fields])
  have requestId := fits 4 p.requestId (by cases version <;> simp [Packet.fields])
  have serialization := fits 1 p.serialization (by cases version <;> simp [Packet.fields])
  have term := fits (if p.isResponse then 2 else 4) p.term (by cases version <;> simp [Packet.fields])
  obtain ⟨opening, switches, sizes, start, middle, eight, row⟩ := p.exists_bytes_eq version
  simp only [row, readFrame?, Checked.access_bind (Bytes.split?_append start _),
    Checked.access_bind (Bytes.takeNumber?_bigEndian type _),
    Checked.access_bind (Bytes.takeNumber?_bigEndian code _),
    Checked.access_bind (Bytes.takeNumber?_bigEndian commandVersion _),
    Checked.access_bind (Bytes.takeNumber?_bigEndian requestId _),
    Checked.access_bind (Bytes.takeNumber?_bigEndian serialization _),
    Checked.access_bind (Bytes.split?_append middle _),
    Checked.access_bind (Bytes.takeNumber?_bigEndian term _),
    Checked.access_bind (Bytes.split?_append eight _)]
  have className := Bytes.split?_append (show p.className.length = p.lengths.className from rfl)
    (p.headers ++ (p.body ++ p.checksum))
  have headers := Bytes.split?_append (show p.headers.length = p.lengths.headers from rfl)
    (p.body ++ p.checksum)
  have body := Bytes.split?_append (show p.body.length = p.lengths.body from rfl) p.checksum
  rw [Checked.access_bind className, Packet.frame?]
  dsimp only
  cases Utf8.decode p.className with
  | error error => rfl
  | ok text =>
    dsimp only
    rw [pure_bind, pure_bind, Checked.access_bind headers]
    refine Checked.run_bind (run_decodeHeaders? p.headers) fun entries => ?_
    rw [Checked.access_bind body]
    rfl

theorem Starts.length_front {type : UInt8} {buffer parts rest : Bytes}
    (starts : Starts version type buffer parts rest) :
    ((Packet.front version type buffer parts).bytes version).length =
      version.fixedSize (type == 0) + (declared version type buffer).sum := by
  rw [Packet.length_bytes, isResponse_front, ← starts.lengths_front, Lengths.sum, Packet.lengths]
  simp only [Nat.add_assoc]

theorem isEmpty_eq_false {buffer : Bytes} {first : UInt8} (here : buffer[0]? = some first) :
    buffer.isEmpty = false := by
  rw [List.isEmpty_eq_false_iff]
  rintro rfl
  cases here

theorem Opens.typeOffset_lt {type : UInt8} {buffer : Bytes} (opens : Opens version type buffer) :
    ¬ buffer.length ≤ version.typeOffset :=
  Nat.not_le.mpr (List.getElem?_eq_some_iff.mp opens.command).1

theorem Opens.decode?_eq {type : UInt8} {buffer : Bytes} (opens : Opens version type buffer) :
    decode? version buffer = decodeTyped? version type buffer := by
  have known : ¬ type > 2 := UInt8.not_lt.mpr opens.known
  simp only [decode?, isEmpty_eq_false opens.protocol, opens.protocol, opens.command, opens.typeOffset_lt,
    known, Option.bind_eq_bind, Option.bind_some, ne_eq, not_true_eq_false, Bool.false_eq_true, if_false]

/-- Every access is inside of the buffer. -/
theorem decode?_eq (version : Version) (buffer : Bytes) :
    decode? version buffer = some (decode version buffer) := by
  have decodes := decodes version buffer
  generalize decode version buffer = decoded at decodes
  cases decodes with
  | empty nothing =>
    rw [nothing]
    rfl
  | foreign here other =>
    simp only [decode?, isEmpty_eq_false here, here, Option.bind_eq_bind, Option.bind_some, if_pos other,
      Bool.false_eq_true, if_false]
  | untyped protocol short =>
    simp only [decode?, isEmpty_eq_false protocol, protocol, Option.bind_eq_bind, Option.bind_some,
      if_pos short, Bool.false_eq_true, if_false, ne_eq, not_true_eq_false]
  | unknown protocol command unknown =>
    have behind := Nat.not_le.mpr (List.getElem?_eq_some_iff.mp command).1
    simp only [decode?, isEmpty_eq_false protocol, protocol, command, Option.bind_eq_bind, Option.bind_some,
      if_neg behind, if_pos unknown, Bool.false_eq_true, if_false, ne_eq, not_true_eq_false]
  | short opens short => rw [opens.decode?_eq, decodeTyped?, if_pos short]
  | oversized opens inside large =>
    rw [declaredSize] at large ⊢
    simp only [opens.decode?_eq, decodeTyped?, if_neg (Nat.not_lt.mpr inside), readLengths?_eq_some inside,
      Option.bind_eq_bind, Option.bind_some, Frame.checkSize, gt_iff_lt, if_pos large]
  | cut opens inside small short =>
    have small' := Frame.checkSize_eq_ok_iff.mpr small
    rw [declaredSize] at small' short
    simp only [opens.decode?_eq, decodeTyped?, if_neg (Nat.not_lt.mpr inside), readLengths?_eq_some inside,
      Option.bind_eq_bind, Option.bind_some, small', if_pos short]
  | @whole type parts rest starts =>
    have opens : Opens version type buffer := ⟨starts.protocol, starts.command, starts.known⟩
    have small := Frame.checkSize_eq_ok_iff.mpr starts.size_le
    have size := starts.length_front
    have read := run_readFrame? starts.valid_front
    have cut := Bytes.split?_append size rest
    rw [starts.lengths_front, Starts.isResponse_front] at read
    rw [starts.bytes_front] at cut
    have enough := congrArg List.length starts.bytes_front
    rw [List.length_append, size] at enough
    have inside : version.fixedSize (type == 0) ≤ buffer.length := by omega
    have all : ¬ buffer.length < version.fixedSize (type == 0) + (declared version type buffer).sum := by
      omega
    simp only [opens.decode?_eq, decodeTyped?, if_neg (Nat.not_lt.mpr inside), readLengths?_eq_some inside,
      Option.bind_eq_bind, Option.bind_some, small, if_neg all, cut, read]
    cases (Packet.front version type buffer parts).frame? <;> rfl

end Bolt

namespace Dubbo

variable {buffer : Bytes}

/-- Reads a whole frame, field by field. -/
def readFrame? (raw : Bytes) : Option Frame := do
  let (_, raw) ← Bytes.split? 2 raw
  let (flags, raw) ← Bytes.takeNumber? 1 raw
  let (status, raw) ← Bytes.takeNumber? 1 raw
  let (requestId, raw) ← Bytes.takeNumber? 8 raw
  let (_, body) ← Bytes.split? 4 raw
  let kind := kindOf (UInt8.ofNat flags)
  let frame : Frame := {
    kind
    requestId := UInt64.ofNat requestId
    status := UInt16.ofNat status
    serialization := UInt8.ofNat flags % 32
    body }
  if carriesInvocation kind then
    match Invocation.parse body with
    | .ok invocation => return withInvocation frame invocation
    | .error _ => return frame
  else return frame

/-- Goes on behind the start of a frame. -/
def decodeOpened? (buffer : Bytes) : Option Decoded :=
  if buffer.length < headerSize then some .incomplete
  else do
    let size := headerSize + (← Bytes.numberAt? buffer 12 4)
    match Frame.checkSize size with
    | .error error => some (.failed error buffer)
    | .ok () =>
      if buffer.length < size then some .incomplete
      else do
        let (raw, rest) ← Bytes.split? size buffer
        return .frame (← readFrame? raw) rest

def decode? (buffer : Bytes) : Option Decoded :=
  if 2 ≤ buffer.length then do
    let start ← Bytes.numberAt? buffer 0 2
    if start ≠ magic.toNat then some (.failed (.unknownProtocol (UInt16.ofNat start)) buffer)
    else decodeOpened? buffer
  else decodeOpened? buffer

theorem Opens.decode?_eq (opens : Opens buffer) : decode? buffer = decodeOpened? buffer := by
  rw [decode?, if_pos opens.two, Bytes.numberAt?_eq_some opens.two, Option.bind_eq_bind,
    Option.bind_some, if_neg (not_not_intro opens.protocol)]

theorem length?_eq_some (inside : headerSize ≤ buffer.length) :
    Bytes.numberAt? buffer 12 4 = some (Bytes.numberAt buffer 12 4) := Bytes.numberAt?_eq_some inside

theorem readFrame?_eq_some {raw : Bytes} (inside : headerSize ≤ raw.length) :
    readFrame? raw = some (readFrame raw (raw.drop headerSize)) := by
  rw [headerSize] at inside
  rw [readFrame?, Bytes.split?_eq_some (by omega)]
  simp only [Option.bind_eq_bind, Option.bind_some]
  rw [Bytes.takeNumber?_drop (by omega), Option.bind_some, Bytes.takeNumber?_drop (by omega),
    Option.bind_some, Bytes.takeNumber?_drop (by omega), Option.bind_some, Bytes.split?_drop (by omega),
    Option.bind_some, readFrame]
  have behind : raw.drop (2 + 1 + 1 + 8 + 4) = raw.drop headerSize := rfl
  rw [behind]
  dsimp only
  split
  · cases Invocation.parse (raw.drop headerSize) <;> rfl
  · rfl

/-- Every access is inside of the buffer. -/
theorem decode?_eq (buffer : Bytes) : decode? buffer = some (decode buffer) := by
  have decodes := decodes buffer
  generalize decode buffer = decoded at decodes
  cases decodes with
  | unmarked short =>
    have short' : buffer.length < headerSize := Nat.lt_trans short (by decide)
    rw [decode?, if_neg (Nat.not_le.mpr short), decodeOpened?, if_pos short']
  | foreign two other =>
    rw [decode?, if_pos two, Bytes.numberAt?_eq_some two, Option.bind_eq_bind, Option.bind_some,
      if_pos other]
  | short opens short => rw [opens.decode?_eq, decodeOpened?, if_pos short]
  | oversized opens inside large =>
    rw [declaredSize] at large ⊢
    simp only [opens.decode?_eq, decodeOpened?, if_neg (Nat.not_lt.mpr inside), length?_eq_some inside,
      Option.bind_eq_bind, Option.bind_some, Frame.checkSize, gt_iff_lt, if_pos large]
  | cut opens inside small short =>
    have small' := Frame.checkSize_eq_ok_iff.mpr small
    rw [declaredSize] at small' short
    simp only [opens.decode?_eq, decodeOpened?, if_neg (Nat.not_lt.mpr inside), length?_eq_some inside,
      Option.bind_eq_bind, Option.bind_some, small', if_pos short]
  | whole opens small enough =>
    have inside : headerSize ≤ buffer.length := Nat.le_trans (Nat.le_add_right _ _) enough
    have length : (buffer.take (declaredSize buffer)).length = declaredSize buffer :=
      List.length_take_of_le enough
    have fixed : headerSize ≤ (buffer.take (declaredSize buffer)).length := by
      rw [length]
      exact Nat.le_add_right _ _
    have read := readFrame?_eq_some fixed
    have same := readFrame_append fixed (buffer.drop (declaredSize buffer))
    rw [List.take_append_drop] at same
    rw [← same, List.drop_take, declaredSize, Nat.add_sub_cancel_left] at read
    have small' := Frame.checkSize_eq_ok_iff.mpr small
    rw [declaredSize] at small' enough ⊢
    simp only [opens.decode?_eq, decodeOpened?, if_neg (Nat.not_lt.mpr inside), length?_eq_some inside,
      Option.bind_eq_bind, Option.bind_some, small', if_neg (Nat.not_lt.mpr enough),
      Bytes.split?_eq_some enough, read]
    rfl

end Dubbo

namespace Codec

/-- Decoding with every access checked. -/
def decode? (codec : Codec) (buffer : Bytes) : Option Decoded :=
  match codec with
  | .bolt version _ => Bolt.decode? version buffer
  | .dubbo => Dubbo.decode? buffer

theorem decode?_eq (codec : Codec) (buffer : Bytes) :
    codec.decode? buffer = some (codec.decode buffer) := by
  cases codec with
  | bolt version className => exact Bolt.decode?_eq version buffer
  | dubbo => exact Dubbo.decode?_eq buffer

end Codec
end RpcClient
