import RpcClient.Proofs.Hessian.Parts

/-! What reading a string accepts. It gives a text for the bytes of a string in parts and for nothing else; a null,
though, may end a string as well as stand alone, and takes the chunks in front of it with it. -/
namespace RpcClient.Hessian

variable {position count : Nat} {classes : Array Nat} {bytes taken taken' : Bytes} {text before : String}
  {value : Option String} {c : Cursor}

/-! ### What was taken -/

theorem byte_eq_ok {b : UInt8} (success : byte (.of position classes bytes) = .ok b c) :
    ∃ rest, bytes = b :: rest ∧ c = .of (position + 1) classes rest := by
  cases bytes with
  | nil => cases success
  | cons head rest =>
    cases (Takes.byte position classes head rest).symm.trans success
    exact ⟨rest, rfl, rfl⟩

theorem word_eq_ok {number : Nat} (success : word (.of position classes bytes) = .ok number c) :
    ∃ rest, number < 0x10000 ∧ bytes = Bytes.bigEndian 2 number ++ rest ∧
      c = .of (position + 2) classes rest := by
  obtain ⟨high, _, first, success⟩ := bind_eq_ok success
  obtain ⟨_, rfl, rfl⟩ := byte_eq_ok first
  obtain ⟨low, _, second, success⟩ := bind_eq_ok success
  obtain ⟨rest, rfl, rfl⟩ := byte_eq_ok second
  cases success
  have small := high.toNat_lt
  have small' := low.toNat_lt
  have digits : Bytes.bigEndian 2 (high.toNat * 256 + low.toNat) = [high, low] := by
    have same := Bytes.bigEndian_toNat [high, low]
    simpa [Bytes.toNat] using same
  refine ⟨rest, by omega, ?_, rfl⟩
  rw [digits]
  rfl

theorem takeBytes_eq_ok (success : takeBytes count taken (.of position classes bytes) = .ok taken' c) :
    ∃ used rest, used.length = count ∧ taken' = used.reverse ++ taken ∧ bytes = used ++ rest ∧
      c = .of (position + used.length) classes rest := by
  induction count generalizing position bytes taken with
  | zero =>
    cases success
    exact ⟨[], bytes, rfl, rfl, rfl, rfl⟩
  | succ count ih =>
    obtain ⟨b, _, first, success⟩ := bind_eq_ok success
    obtain ⟨_, rfl, rfl⟩ := byte_eq_ok first
    obtain ⟨used, rest, rfl, rfl, rfl, rfl⟩ := ih success
    refine ⟨b :: used, rest, rfl, by simp, rfl, ?_⟩
    rw [List.length_cons, Nat.add_right_comm, Nat.add_assoc]

/-- Where the bytes that were taken spell characters, there are as many of them as were asked for. -/
theorem takeCharacters_eq_ok
    (success : takeCharacters count taken (.of position classes bytes) = .ok taken' c) :
    ∃ used rest, (∀ chars, used = Utf8.encodeChars chars → chars.length = count) ∧
      taken' = used.reverse ++ taken ∧ bytes = used ++ rest ∧ c = .of (position + used.length) classes rest := by
  induction count generalizing position bytes taken with
  | zero =>
    cases success
    refine ⟨[], bytes, ?_, rfl, rfl, rfl⟩
    intro chars spelled
    cases chars with
    | nil => rfl
    | cons char chars =>
      obtain ⟨lead, more, written, -⟩ := exists_encodeChars_cons char chars
      rw [written] at spelled
      cases spelled
  | succ count ih =>
    obtain ⟨lead, _, first, success⟩ := bind_eq_ok success
    obtain ⟨_, rfl, rfl⟩ := byte_eq_ok first
    cases width : characterWidth? lead with
    | none =>
      rw [width] at success
      cases success
    | some size =>
      rw [width] at success
      obtain ⟨_, _, behind, success⟩ := bind_eq_ok success
      obtain ⟨more, _, length, rfl, rfl, rfl⟩ := takeBytes_eq_ok behind
      obtain ⟨used, rest, spells, rfl, rfl, rfl⟩ := ih success
      refine ⟨lead :: (more ++ used), rest, ?_, by simp, by simp, ?_⟩
      · intro chars spelled
        cases chars with
        | nil => cases spelled
        | cons char chars =>
          obtain ⟨lead', more', written, width'⟩ := exists_encodeChars_cons char chars
          rw [written, List.cons.injEq] at spelled
          obtain ⟨rfl, spelled⟩ := spelled
          -- the first byte tells the same width in both
          obtain rfl : size = more'.length + 1 := Option.some.inj (width.symm.trans width')
          obtain ⟨-, behind⟩ := List.append_inj spelled length
          exact congrArg Nat.succ (spells chars behind)
      · rw [List.length_cons, List.length_append]
        congr 1
        omega

theorem characters_eq_ok (success : characters count (.of position classes bytes) = .ok text c) :
    ∃ rest, text.length = count ∧ bytes = Utf8.encode text ++ rest ∧
      c = .of (position + (Utf8.encode text).length) classes rest := by
  obtain ⟨taken, _, took, success⟩ := bind_eq_ok success
  obtain ⟨used, rest, spells, rfl, rfl, rfl⟩ := takeCharacters_eq_ok took
  rw [List.append_nil, List.reverse_reverse] at success
  cases decoded : Utf8.decode used with
  | error flaw =>
    rw [decoded] at success
    cases success
  | ok text' =>
    rw [decoded] at success
    cases success
    obtain rfl := Utf8.encode_of_decode decoded
    exact ⟨rest, (String.length_toList ▸ spells text.toList rfl), rfl, rfl⟩

/-! ### Strings -/

/-- Whether `b` is the first byte of a string, or the null, that is announced. -/
def Tag.isSpelled (b : UInt8) : Tag → Bool
  | .null => b == 0x4e
  | .shortString length => length < 0x20 && b == UInt8.ofNat (0x00 + length)
  | .mediumString high => high < 4 && b == UInt8.ofNat (0x30 + high)
  | .string => b == 0x53
  | .stringChunk => b == 0x52
  | _ => true

theorem isSpelled_ofByte (b : UInt8) : (Tag.ofByte b).isSpelled b = true := by
  have all : ∀ n < 256, (Tag.ofByte (UInt8.ofNat n)).isSpelled (UInt8.ofNat n) = true := by decide +kernel
  simpa using all b.toNat b.toNat_lt

theorem last_eq_ok
    (success : (do return some (before ++ (← characters count)) : Read (Option String))
      (.of position classes bytes) = .ok value c) :
    ∃ text rest, text.length = count ∧ value = some (before ++ text) ∧ bytes = Utf8.encode text ++ rest ∧
      c = .of (position + (Utf8.encode text).length) classes rest := by
  obtain ⟨text, _, took, success⟩ := bind_eq_ok success
  obtain ⟨rest, length, rfl, rfl⟩ := characters_eq_ok took
  cases success
  exact ⟨text, rest, length, rfl, rfl, rfl⟩

theorem readStringWithin_succ_eq_ok {fuel : Nat}
    (success : readStringWithin (fuel + 1) before (.of position classes bytes) = .ok value c) :
    (∃ closing rest, Closes before closing value ∧ bytes = closing ++ rest ∧
      c = .of (position + closing.length) classes rest) ∨
    ∃ chunk rest, chunk.length < 0x10000 ∧ bytes = PartKind.string.chunkPart chunk ++ rest ∧
      readStringWithin fuel (before ++ chunk)
        (.of (position + (PartKind.string.chunkPart chunk).length) classes rest) = .ok value c := by
  obtain ⟨b, _, first, success⟩ := bind_eq_ok success
  obtain ⟨bytes, rfl, rfl⟩ := byte_eq_ok first
  have spelled := isSpelled_ofByte b
  cases tag : Tag.ofByte b with
  | null =>
    rw [tag] at spelled success
    obtain rfl := eq_of_beq spelled
    cases success
    exact .inl ⟨[0x4e], bytes, .null, rfl, rfl⟩
  | shortString length =>
    rw [tag] at spelled success
    simp only [Tag.isSpelled, Bool.and_eq_true, decide_eq_true_eq, beq_iff_eq] at spelled
    obtain ⟨fits, rfl⟩ := spelled
    obtain ⟨text, rest, rfl, rfl, rfl, rfl⟩ := last_eq_ok success
    refine .inl ⟨_, rest, .last .short text fits, rfl, ?_⟩
    simp [PartKind.lastPart, PartKind.first, Ending.digits, PartKind.string, Nat.add_assoc, Nat.add_comm]
  | mediumString high =>
    rw [tag] at spelled success
    simp only [Tag.isSpelled, Bool.and_eq_true, decide_eq_true_eq, beq_iff_eq] at spelled
    obtain ⟨small, rfl⟩ := spelled
    obtain ⟨low, _, second, success⟩ := bind_eq_ok success
    obtain ⟨bytes, rfl, rfl⟩ := byte_eq_ok second
    obtain ⟨text, rest, length, rfl, rfl, rfl⟩ := last_eq_ok success
    have lowSmall := low.toNat_lt
    have fits : text.length < 0x400 := by omega
    have part : PartKind.string.lastPart .medium text = UInt8.ofNat (0x30 + high) :: low :: Utf8.encode text := by
      have quotient : text.length / 256 = high := by omega
      have digit : UInt8.ofNat text.length = low := by simp [length]
      simp [PartKind.lastPart, PartKind.first, Ending.digits, PartKind.string, quotient, digit]
    refine .inl ⟨_, rest, .last .medium text fits, by rw [part]; rfl, ?_⟩
    congr 1
    simp only [part, List.length_cons]
    omega
  | string =>
    rw [tag] at spelled success
    obtain rfl := eq_of_beq spelled
    obtain ⟨length, _, second, success⟩ := bind_eq_ok success
    obtain ⟨bytes, fits, rfl, rfl⟩ := word_eq_ok second
    obtain ⟨text, rest, rfl, rfl, rfl, rfl⟩ := last_eq_ok success
    have size : (PartKind.string.lastPart .long text).length = 1 + 2 + (Utf8.encode text).length := by
      simp [PartKind.lastPart, PartKind.first, Ending.digits, PartKind.string]
      omega
    refine .inl ⟨_, rest, .last .long text fits, ?_, ?_⟩
    · simp [PartKind.lastPart, PartKind.first, Ending.digits, PartKind.string]
    · rw [size, ← Nat.add_assoc, ← Nat.add_assoc]
  | stringChunk =>
    rw [tag] at spelled success
    obtain rfl := eq_of_beq spelled
    obtain ⟨length, _, second, success⟩ := bind_eq_ok success
    obtain ⟨bytes, fits, rfl, rfl⟩ := word_eq_ok second
    obtain ⟨text, _, third, success⟩ := bind_eq_ok success
    obtain ⟨rest, rfl, rfl, rfl⟩ := characters_eq_ok third
    have size : (PartKind.string.chunkPart text).length = 1 + 2 + (Utf8.encode text).length := by
      simp [PartKind.chunkPart, PartKind.string]
      omega
    refine .inr ⟨text, rest, fits, by simp [PartKind.chunkPart, PartKind.string], ?_⟩
    rw [size, ← Nat.add_assoc, ← Nat.add_assoc]
    exact success
  | _ =>
    rw [tag] at success
    cases success

theorem readStringWithin_eq_ok {fuel : Nat}
    (success : readStringWithin fuel before (.of position classes bytes) = .ok value c) :
    ∃ chunks closing rest, (∀ chunk ∈ chunks, chunk.length < 0x10000) ∧
      Closes (chunks.foldl (· ++ ·) before) closing value ∧
      bytes = PartKind.string.chunkParts chunks ++ closing ++ rest ∧
      c = .of (position + (PartKind.string.chunkParts chunks ++ closing).length) classes rest := by
  induction fuel generalizing position bytes before with
  | zero => cases success
  | succ fuel ih =>
    obtain ⟨closing, rest, closes, rfl, rfl⟩ | ⟨chunk, _, fits, rfl, behind⟩ :=
      readStringWithin_succ_eq_ok success
    · exact ⟨[], closing, rest, by simp, closes, rfl, rfl⟩
    · obtain ⟨chunks, closing, rest, fit, closes, rfl, rfl⟩ := ih behind
      refine ⟨chunk :: chunks, closing, rest, List.forall_mem_cons.mpr ⟨fits, fit⟩, closes, ?_, ?_⟩
      · simp [PartKind.chunkParts]
      · simp [PartKind.chunkParts, Nat.add_assoc]

/-- Reading succeeds on chunks with a closing part behind them, and on nothing else. -/
theorem readString_eq_ok_iff : readString (.of position classes bytes) = .ok value c ↔
    ∃ chunks closing rest, (∀ chunk ∈ chunks, chunk.length < 0x10000) ∧
      Closes (String.join chunks) closing value ∧
      bytes = PartKind.string.chunkParts chunks ++ closing ++ rest ∧
      c = .of (position + (PartKind.string.chunkParts chunks ++ closing).length) classes rest := by
  constructor
  · intro success
    exact readStringWithin_eq_ok success
  · rintro ⟨chunks, closing, rest, fit, closes, rfl, rfl⟩
    exact takes_readString_closes position classes _ fit closes rest

theorem readString_eq_some_iff : readString (.of position classes bytes) = .ok (some text) c ↔
    ∃ (form : StringForm) (rest : Bytes), form.text = text ∧ bytes = form.bytes ++ rest ∧
      c = .of (position + form.bytes.length) classes rest := by
  rw [readString_eq_ok_iff]
  constructor
  · rintro ⟨chunks, closing, rest, fit, closes, split, moved⟩
    cases closes with
    | last ending last fits => exact ⟨⟨chunks, last, ending, fit, fits⟩, rest, rfl, split, moved⟩
  · rintro ⟨form, rest, rfl, split, moved⟩
    exact ⟨form.chunks, _, rest, form.chunks_fit, .last form.ending form.last form.last_fits, split, moved⟩

theorem readString_eq_none_iff : readString (.of position classes bytes) = .ok none c ↔
    ∃ (chunks : List String) (rest : Bytes), (∀ chunk ∈ chunks, chunk.length < 0x10000) ∧
      bytes = PartKind.string.chunkParts chunks ++ [0x4e] ++ rest ∧
      c = .of (position + (PartKind.string.chunkParts chunks ++ [0x4e]).length) classes rest := by
  rw [readString_eq_ok_iff]
  constructor
  · rintro ⟨chunks, closing, rest, fit, closes, split, moved⟩
    cases closes
    exact ⟨chunks, rest, fit, split, moved⟩
  · rintro ⟨chunks, rest, fit, split, moved⟩
    exact ⟨chunks, [0x4e], rest, fit, .null, split, moved⟩

/-- A text is read exactly where a string in parts stands, and its bytes are taken. None is read exactly where
a null stands, be it alone or behind chunks. Everywhere else reading fails. -/
theorem string_read_iff_stands (position : Nat) (classes : Array Nat) (bytes : Bytes) :
    (∀ text c, readString (.of position classes bytes) = .ok (some text) c ↔
      ∃ (form : StringForm) (rest : Bytes), form.text = text ∧ bytes = form.bytes ++ rest ∧
        c = .of (position + form.bytes.length) classes rest) ∧
    (∀ c, readString (.of position classes bytes) = .ok none c ↔
      ∃ (chunks : List String) (rest : Bytes), (∀ chunk ∈ chunks, chunk.length < 0x10000) ∧
        bytes = PartKind.string.chunkParts chunks ++ [0x4e] ++ rest ∧
        c = .of (position + (PartKind.string.chunkParts chunks ++ [0x4e]).length) classes rest) ∧
    ((∃ flaw c, readString (.of position classes bytes) = .error flaw c) ↔
      ∀ rest, (∀ form : StringForm, bytes ≠ form.bytes ++ rest) ∧
        ∀ chunks : List String, (∀ chunk ∈ chunks, chunk.length < 0x10000) →
          bytes ≠ PartKind.string.chunkParts chunks ++ [0x4e] ++ rest) := by
  refine ⟨fun _ _ => readString_eq_some_iff, fun _ => readString_eq_none_iff, ?_, ?_⟩
  · rintro ⟨flaw, c, failed⟩ rest
    constructor
    · intro form split
      rw [readString_eq_some_iff.mpr ⟨form, rest, rfl, split, rfl⟩] at failed
      cases failed
    · intro chunks fit split
      rw [readString_eq_none_iff.mpr ⟨chunks, rest, fit, split, rfl⟩] at failed
      cases failed
  · intro neither
    cases result : readString (.of position classes bytes) with
    | error flaw c => exact ⟨flaw, c, rfl⟩
    | ok value c =>
      cases value with
      | none =>
        obtain ⟨chunks, rest, fit, split, -⟩ := readString_eq_none_iff.mp result
        exact absurd split ((neither rest).2 chunks fit)
      | some text =>
        obtain ⟨form, rest, -, split, -⟩ := readString_eq_some_iff.mp result
        exact absurd split ((neither rest).1 form)

/-- A null behind a chunk is read as a null, and the text of the chunk is lost. -/
theorem null_behind_chunk_read_as_none :
    readString (.ofBytes [0x52, 0, 1, 0x61, 0x4e]) = .ok none (.of 5 #[] []) := by
  have takes := takes_readString_closes 0 #[] ["a"] (by decide) .null []
  exact (congrArg readString (Cursor.eq_of _)).trans takes

end RpcClient.Hessian
