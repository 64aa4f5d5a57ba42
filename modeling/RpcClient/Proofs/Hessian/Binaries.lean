import RpcClient.Proofs.Hessian.Skipping

/-! Stepping over binaries. One in a single part may have any form; behind chunks, only a last part with a length
of two bytes is accepted. -/
namespace RpcClient.Hessian

variable {position fuel : Nat} {classes : Array Nat} {data chunk behind : Bytes} {next : UInt8} {ending : Ending}

theorem ofByte_shortBinary : ∀ length < 0x10, Tag.ofByte (UInt8.ofNat (0x20 + length)) = .shortBinary length := by
  decide

theorem ofByte_mediumBinary : ∀ high < 4, Tag.ofByte (UInt8.ofNat (0x34 + high)) = .mediumBinary high := by
  decide

/-! ### The last part -/

theorem takes_part (position : Nat) (classes : Array Nat) (fits : data.length < 0x10000) :
    Takes (do skip (← word)) position classes (Bytes.bigEndian 2 data.length ++ data) () classes :=
  (takes_word position classes fits).bind (Takes.skip _ classes data)

theorem takes_skipBinaryWithin_long (position : Nat) (classes : Array Nat) (fuel : Nat)
    (fits : data.length < 0x10000) :
    Takes (skipBinaryWithin (fuel + 1) 0x42) position classes (Bytes.bigEndian 2 data.length ++ data) ()
      classes := by
  have part := (takes_part position classes fits).bind (Takes.pure _ classes ())
  rwa [List.append_nil] at part

/-- What the first byte of a last part announces. -/
def Ending.tag (length : Nat) : Ending → Tag
  | .short => .shortBinary length
  | .medium => .mediumBinary (length / 256)
  | .long => .binary

theorem ofByte_first (fits : data.length < PartKind.binary.limit ending) :
    Tag.ofByte (PartKind.binary.first data.length ending) = ending.tag data.length := by
  cases ending with
  | short => exact ofByte_shortBinary data.length fits
  | medium => exact ofByte_mediumBinary _ (Nat.div_lt_of_lt_mul fits)
  | long => rfl

/-- A last part that stands alone. -/
theorem takes_skipBody_lastPart (inner : Read Unit) (position : Nat) (classes : Array Nat)
    (fits : data.length < PartKind.binary.limit ending) :
    Takes (skipBody inner (PartKind.binary.first data.length ending)) position classes
      (ending.digits data.length ++ data) () classes := by
  rw [skipBody, ofByte_first fits]
  cases ending with
  | short => exact Takes.skip position classes data
  | medium =>
    have number : data.length / 256 * 256 + (UInt8.ofNat data.length).toNat = data.length := by
      rw [UInt8.toNat_ofNat']
      exact Nat.div_add_mod' _ _
    apply (Takes.byte position classes (UInt8.ofNat data.length)).bind
    rw [number]
    exact Takes.skip _ classes data
  | long =>
    have rounds : ∀ budget, (Bytes.bigEndian 2 data.length ++ data).length ≤ budget →
        Takes (skipBinaryWithin (budget + 1) 0x42) position classes (Bytes.bigEndian 2 data.length ++ data) ()
          classes :=
      fun budget _ => takes_skipBinaryWithin_long position classes budget fits
    exact Takes.get_remaining rounds

/-! ### Chunks -/

/-- What is done behind a chunk with the byte `next`. -/
def afterChunk (fuel : Nat) (next : UInt8) : Read Unit :=
  match Tag.ofByte next with
  | .binary | .binaryChunk => skipBinaryWithin fuel next
  | _ => throw (.badBinaryChunk next)

theorem skipBinaryWithin_chunk (fits : chunk.length < 0x10000) :
    skipBinaryWithin (fuel + 1) 0x41
        (.of position classes (Bytes.bigEndian 2 chunk.length ++ chunk ++ next :: behind)) =
      afterChunk fuel next (.of (position + (2 + chunk.length) + 1) classes behind) := by
  have size := takes_word position classes fits (chunk ++ next :: behind)
  rw [Bytes.length_bigEndian] at size
  have data := Takes.skip (position + 2) classes chunk (next :: behind)
  have first : byte (.of (position + 2 + chunk.length) classes (next :: behind)) =
      .ok next (.of (position + 2 + chunk.length + 1) classes behind) := Takes.byte _ classes next behind
  have goesOn : ¬ (Tag.ofByte 0x41 == .binary) = true := by decide
  rw [List.append_assoc, skipBinaryWithin, bind_of_ok size, bind_of_ok data, if_neg goesOn, bind_of_ok first,
    Nat.add_assoc position]
  rfl

theorem chunkParts_cons (chunk : Bytes) (chunks : List Bytes) :
    PartKind.binary.chunkParts (chunk :: chunks) =
      0x41 :: (Bytes.bigEndian 2 chunk.length ++ chunk ++ PartKind.binary.chunkParts chunks) := by
  simp [PartKind.chunkParts, PartKind.chunkPart, PartKind.binary]

theorem skipBinaryWithin_chunks (position : Nat) (classes : Array Nat) (fuel : Nat) (next : UInt8)
    (behind : Bytes) {chunks : List Bytes} (fits : chunk.length < 0x10000)
    (fit : ∀ chunk ∈ chunks, chunk.length < 0x10000) :
    skipBinaryWithin (chunks.length + fuel + 1) 0x41
        (.of position classes (Bytes.bigEndian 2 chunk.length ++ chunk ++
          (PartKind.binary.chunkParts chunks ++ next :: behind))) =
      afterChunk fuel next
        (.of (position + (PartKind.binary.chunkParts (chunk :: chunks)).length) classes behind) := by
  induction chunks generalizing position chunk with
  | nil =>
    rw [chunkParts_cons, List.length_nil, Nat.zero_add]
    refine (skipBinaryWithin_chunk fits).trans ?_
    congr 2
    simp [PartKind.chunkParts]
    omega
  | cons chunk' chunks ih =>
    obtain ⟨fits', fit⟩ := List.forall_mem_cons.mp fit
    have again := ih (position + (2 + chunk.length) + 1) fits' fit
    rw [chunkParts_cons chunk', List.cons_append, List.append_assoc _ _ (next :: behind),
      skipBinaryWithin_chunk fits, List.length_cons, Nat.add_right_comm]
    refine Eq.trans again ?_
    congr 2
    simp only [chunkParts_cons, List.length_cons, List.length_append, Bytes.length_bigEndian]
    omega

theorem afterChunk_first (fits : data.length < PartKind.binary.limit ending) (refused : ending ≠ .long)
    (fuel : Nat) :
    afterChunk fuel (PartKind.binary.first data.length ending) =
      throw (.badBinaryChunk (PartKind.binary.first data.length ending)) := by
  rw [afterChunk, ofByte_first fits]
  cases ending with
  | short => rfl
  | medium => rfl
  | long => exact absurd rfl refused

/-! ### Whole binaries -/

/-- A binary is whole in a single part, or with a last part that tells its length in two bytes. -/
def BinaryForm.IsWhole (form : BinaryForm) : Prop := form.chunks = [] ∨ form.ending = .long

instance (form : BinaryForm) : Decidable form.IsWhole := inferInstanceAs (Decidable (_ ∨ _))

theorem skipWithin_lastPart (position : Nat) (classes : Array Nat) (room : Nat)
    (fits : data.length < PartKind.binary.limit ending) :
    Takes (skipWithin (room + 1)) position classes (PartKind.binary.lastPart ending data) () classes := by
  have body := takes_skipBody_lastPart (skipWithin room) (position + 1) classes fits
  cases ending <;> exact takes_skipWithin_body (ofByte_first fits) rfl rfl body

/-- Behind chunks, the first byte of the last part decides. -/
theorem skipWithin_chunkParts (position : Nat) (classes : Array Nat) (room : Nat) {chunks : List Bytes}
    (some : chunks ≠ []) (fit : ∀ chunk ∈ chunks, chunk.length < 0x10000) (next : UInt8) (behind : Bytes) :
    ∃ fuel, skipWithin (room + 1)
        (.of position classes (PartKind.binary.chunkParts chunks ++ next :: behind)) =
      afterChunk (fuel + 1) next
        (.of (position + (PartKind.binary.chunkParts chunks).length + 1) classes behind) := by
  cases chunks with
  | nil => exact absurd rfl some
  | cons chunk chunks =>
    obtain ⟨fits, fit⟩ := List.forall_mem_cons.mp fit
    have parts := PartKind.binary.length_le_chunkParts chunks
    -- the fuel is the number of bytes behind the first, and there are fewer chunks than that
    obtain ⟨fuel, enough⟩ := Nat.exists_eq_add_of_lt
      (show chunks.length < (Bytes.bigEndian 2 chunk.length ++ chunk ++
        (PartKind.binary.chunkParts chunks ++ next :: behind)).length by
          simp only [List.length_append, List.length_cons]
          omega)
    have stepped := skipBinaryWithin_chunks (position + 1) classes (fuel + 1) next behind fits fit
    have body : skipBody (skipWithin room) 0x41 = (do skipBinaryWithin ((← get).remaining + 1) 0x41) := rfl
    refine ⟨fuel, ?_⟩
    rw [Nat.add_right_comm position] at stepped
    rw [chunkParts_cons, List.cons_append, List.append_assoc _ _ (next :: behind),
      skipWithin_eq_skipBody rfl rfl rfl, body, bind_get, Cursor.remaining_of, enough, ← chunkParts_cons]
    exact stepped

theorem BinaryForm.bytes_append (form : BinaryForm) (rest : Bytes) :
    form.bytes ++ rest = PartKind.binary.chunkParts form.chunks ++
      PartKind.binary.first form.last.length form.ending ::
        (form.ending.digits form.last.length ++ form.last ++ rest) := by
  simp [Parts.bytes, PartKind.lastPart, PartKind.binary]

theorem takes_skipWithin_binary (position : Nat) (classes : Array Nat) (room : Nat) {form : BinaryForm}
    (whole : form.IsWhole) : Takes (skipWithin (room + 1)) position classes form.bytes () classes := by
  by_cases single : form.chunks = []
  · have part := skipWithin_lastPart position classes room form.last_fits
    rwa [Parts.bytes, single]
  · intro rest
    have long : form.ending = .long := whole.resolve_left single
    have fits := form.last_fits
    rw [long] at fits
    obtain ⟨fuel, stepped⟩ := skipWithin_chunkParts position classes room single form.chunks_fit
      0x42 (Bytes.bigEndian 2 form.last.length ++ form.last ++ rest)
    have last := takes_skipBinaryWithin_long (position + (PartKind.binary.chunkParts form.chunks).length + 1)
      classes fuel fits rest
    have bytes := BinaryForm.bytes_append form rest
    rw [long] at bytes
    rw [bytes]
    refine (stepped.trans last).trans ?_
    congr 2
    simp [Parts.bytes, long, PartKind.lastPart, Ending.digits, PartKind.binary]
    omega

/-- A binary is stepped over exactly if it is whole in this sense. Any other is refused at the first byte of its
last part. -/
theorem binary_skipped_iff_whole (form : BinaryForm) (position : Nat) (classes : Array Nat) (rest : Bytes) :
    skipValue (.of position classes (form.bytes ++ rest)) =
      if form.IsWhole then .ok () (.of (position + form.bytes.length) classes rest)
      else .error (.badBinaryChunk (PartKind.binary.first form.last.length form.ending))
        (.of (position + (PartKind.binary.chunkParts form.chunks).length + 1) classes
          (form.ending.digits form.last.length ++ form.last ++ rest)) := by
  split
  next whole => exact takes_skipWithin_binary position classes maxDepth whole rest
  next broken =>
    have some : form.chunks ≠ [] := fun none => broken (.inl none)
    have refused : form.ending ≠ .long := fun long => broken (.inr long)
    obtain ⟨fuel, stepped⟩ := skipWithin_chunkParts position classes maxDepth some form.chunks_fit
      (PartKind.binary.first form.last.length form.ending)
      (form.ending.digits form.last.length ++ form.last ++ rest)
    rw [BinaryForm.bytes_append, skipValue, stepped, afterChunk_first form.last_fits refused]
    rfl

/-- A chunk and a short last part. -/
def shortlyEnded : BinaryForm where
  chunks := [[0x61]]
  last := [0x62]
  ending := .short
  chunks_fit := by decide
  last_fits := by decide

theorem short_last_part_refused :
    shortlyEnded.bytes = [0x41, 0, 1, 0x61, 0x21, 0x62] ∧
      skipValue (.ofBytes shortlyEnded.bytes) = .error (.badBinaryChunk 0x21) (.of 5 #[] [0x62]) := by
  obtain ⟨fuel, stepped⟩ := skipWithin_chunkParts 0 #[] maxDepth (List.cons_ne_nil [0x61] []) (by decide) 0x21
    [0x62]
  exact ⟨by decide, (congrArg skipValue (Cursor.eq_of _)).trans stepped⟩

end RpcClient.Hessian
