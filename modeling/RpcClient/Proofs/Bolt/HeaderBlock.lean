import RpcClient.Bolt
import RpcClient.Proofs.Bytes
import RpcClient.Proofs.Success
import RpcClient.Proofs.Utf8

/-! Header blocks: what was written is read, and a block that is read is the one that is written for
its entries. -/
namespace RpcClient.Bolt

variable {part text key value : String} {block rest : Bytes} {headers done : List (String × String)}

/-- The size of a header block: two lengths of four bytes for each entry, and its texts. -/
def blockSize : List (String × String) → Nat
  | [] => 0
  | (key, value) :: headers => 8 + key.utf8ByteSize + value.utf8ByteSize + blockSize headers

/-- A text behind its length. -/
def textBytes (text : String) : Bytes :=
  Bytes.bigEndian 4 (Utf8.encode text).length ++ Utf8.encode text

def entryBytes (entry : String × String) : Bytes :=
  textBytes entry.1 ++ textBytes entry.2

/-- The block of headers whose texts are short enough. -/
def headerBlock (headers : List (String × String)) : Bytes :=
  headers.flatMap entryBytes

theorem length_textBytes (text : String) : (textBytes text).length = 4 + text.utf8ByteSize := by
  rw [textBytes, List.length_append, Bytes.length_bigEndian, Utf8.length_encode]

theorem headerBlock_cons (key value : String) (headers : List (String × String)) :
    headerBlock ((key, value) :: headers) =
      textBytes key ++ (textBytes value ++ headerBlock headers) := by
  rw [headerBlock, List.flatMap_cons, entryBytes, List.append_assoc]
  rfl

theorem length_headerBlock (headers : List (String × String)) :
    (headerBlock headers).length = blockSize headers := by
  induction headers with
  | nil => rfl
  | cons entry headers ih =>
    rw [headerBlock_cons, List.length_append, List.length_append, length_textBytes,
      length_textBytes, ih, blockSize]
    omega

/-! ### Writing -/

theorem encodeText_iff :
    encodeText part text = .ok block ↔ text.utf8ByteSize < UInt32.size ∧ textBytes text = block := by
  rw [encodeText, Utf8.length_encode]
  split
  · next long =>
    constructor
    · intro written
      cases written
    · rintro ⟨short, -⟩
      exact absurd short (Nat.not_lt.mpr long)
  · next short =>
    rw [Except.ok.injEq, textBytes, Utf8.length_encode, and_iff_right (Nat.not_le.mp short)]

theorem encodeEntry_iff {entry : String × String} :
    encodeEntry entry = .ok block ↔
      (entry.1.utf8ByteSize < UInt32.size ∧ entry.2.utf8ByteSize < UInt32.size) ∧ entryBytes entry = block := by
  rw [encodeEntry]
  constructor
  · intro written
    obtain ⟨_, key, written⟩ := ok_of_bind_eq_ok written
    obtain ⟨_, value, written⟩ := ok_of_bind_eq_ok written
    obtain ⟨small, rfl⟩ := encodeText_iff.mp key
    obtain ⟨small', rfl⟩ := encodeText_iff.mp value
    exact ⟨⟨small, small'⟩, Except.ok.inj written⟩
  · rintro ⟨⟨small, small'⟩, rfl⟩
    rw [encodeText_iff.mpr ⟨small, rfl⟩, encodeText_iff.mpr ⟨small', rfl⟩]
    rfl

theorem eq_headerBlock_of_encodeHeaders (written : encodeHeaders headers = .ok block) :
    block = headerBlock headers := by
  obtain ⟨entries, each, same⟩ := ok_of_bind_eq_ok written
  obtain rfl := Except.ok.inj same
  have same : List.Forall₂ (entryBytes · = ·) headers entries :=
    (forall₂_of_mapM_eq_ok each).imp fun _ _ written => (encodeEntry_iff.mp written).2
  rw [← List.forall₂_map_left_iff, List.forall₂_eq_eq_eq] at same
  rw [headerBlock, List.flatMap_def, same]

theorem size_le_blockSize {entry : String × String} (member : entry ∈ headers) :
    entry.1.utf8ByteSize + entry.2.utf8ByteSize ≤ blockSize headers := by
  induction member with
  | head => rw [blockSize]; omega
  | tail _ _ ih => rw [blockSize]; omega

theorem encodeHeaders_of_small (small : blockSize headers < UInt32.size) :
    encodeHeaders headers = .ok (headerBlock headers) := by
  have each : ∀ entry ∈ headers, encodeEntry entry = .ok (entryBytes entry) := by
    intro entry member
    have fits := size_le_blockSize member
    exact encodeEntry_iff.mpr ⟨⟨by omega, by omega⟩, rfl⟩
  have entries : headers.mapM encodeEntry = .ok (headers.map entryBytes) :=
    mapM_eq_ok_of_forall₂ (List.forall₂_map_right_iff.mpr (List.forall₂_same.mpr each))
  rw [encodeHeaders, entries, headerBlock, List.flatMap_def]
  rfl

/-! ### Reading -/

theorem length_le_blockSize (headers : List (String × String)) :
    headers.length ≤ blockSize headers := by
  induction headers with
  | nil => exact Nat.le_refl _
  | cons entry headers ih =>
    rw [blockSize, List.length_cons]
    omega

theorem takeText_textBytes (part : String) (fits : text.utf8ByteSize < UInt32.size) (rest : Bytes) :
    takeText part (textBytes text ++ rest) = .ok (text, rest) := by
  have number : Bytes.numberAt (textBytes text ++ rest) 0 4 = (Utf8.encode text).length := by
    rw [textBytes, List.append_assoc, Bytes.numberAt, List.drop_zero,
      List.take_append_of_le_length (by simp), List.take_of_length_le (by simp)]
    exact Bytes.toNat_bigEndian (by rw [Utf8.length_encode]; exact fits)
  have behind : Bytes.dropExactly 4 (textBytes text ++ rest) = some (Utf8.encode text ++ rest) := by
    have cut := Bytes.dropExactly_append (Bytes.bigEndian 4 (Utf8.encode text).length)
      (Utf8.encode text ++ rest)
    rwa [Bytes.length_bigEndian, ← List.append_assoc] at cut
  rw [takeText, behind, number]
  simp only [Bytes.dropExactly_append, List.take_left, Utf8.decode_encode]

theorem eq_textBytes_of_takeText (taken : takeText part block = .ok (text, rest)) :
    block = textBytes text ++ rest := by
  rw [takeText] at taken
  split at taken
  · cases taken
  next behind cut =>
  dsimp only at taken
  split at taken
  · cases taken
  next rest' cut' =>
  split at taken
  · cases taken
  next text' read =>
  cases taken
  have size := Bytes.length_of_dropExactly cut
  have size' := Bytes.length_of_dropExactly cut'
  have length : (behind.take (Bytes.numberAt block 0 4)).length = Bytes.numberAt block 0 4 :=
    List.length_take_of_le (by omega)
  have four : Bytes.bigEndian 4 (Bytes.numberAt block 0 4) = block.take 4 := by
    have same := Bytes.bigEndian_toNat (block.take 4)
    rwa [List.length_take_of_le (by omega)] at same
  rw [textBytes, Utf8.encode_of_decode read, length, four, List.append_assoc,
    ← Bytes.eq_append_of_dropExactly cut']
  exact Bytes.eq_append_of_dropExactly cut

theorem decodeHeadersWithin_headerBlock {fuel : Nat} (done : List (String × String))
    (enough : headers.length ≤ fuel) (fits : blockSize headers < UInt32.size) :
    decodeHeadersWithin fuel done (headerBlock headers) = .ok (done.reverse ++ headers) := by
  induction headers generalizing fuel done with
  | nil => cases fuel <;> simp [decodeHeadersWithin, headerBlock]
  | cons entry headers ih =>
    obtain ⟨key, value⟩ := entry
    rw [blockSize] at fits
    cases fuel with
    | zero => cases enough
    | succ fuel =>
      have more : (headerBlock ((key, value) :: headers)).isEmpty = false := by
        rw [List.isEmpty_eq_false_iff_exists_mem, ← List.length_pos_iff_exists_mem,
          length_headerBlock, blockSize]
        omega
      rw [decodeHeadersWithin, more, if_neg Bool.false_ne_true, headerBlock_cons,
        takeText_textBytes _ (by omega)]
      simp only [bind, Except.bind]
      rw [takeText_textBytes _ (by omega)]
      dsimp only
      rw [ih _ (Nat.le_of_succ_le_succ enough) (by omega), List.reverse_cons, List.append_assoc]
      rfl

theorem decodeHeaders_headerBlock (fits : blockSize headers < UInt32.size) :
    decodeHeaders (headerBlock headers) = .ok headers := by
  have enough := length_le_blockSize headers
  rw [← length_headerBlock] at enough
  exact decodeHeadersWithin_headerBlock [] enough fits

theorem eq_headerBlock_of_decodeHeadersWithin {fuel : Nat} (enough : block.length ≤ fuel)
    (read : decodeHeadersWithin fuel done block = .ok headers) :
    ∃ behind, headers = done.reverse ++ behind ∧ block = headerBlock behind := by
  -- without enough fuel the end of the block would be dropped in silence
  induction fuel generalizing done block with
  | zero =>
    cases read
    exact ⟨[], (List.append_nil _).symm, List.length_eq_zero_iff.mp (Nat.le_zero.mp enough)⟩
  | succ fuel ih =>
    rw [decodeHeadersWithin] at read
    split at read
    next ended =>
      cases read
      exact ⟨[], (List.append_nil _).symm, List.isEmpty_iff.mp ended⟩
    obtain ⟨⟨key, block'⟩, taken, read⟩ := ok_of_bind_eq_ok read
    obtain ⟨⟨value, rest⟩, taken', read⟩ := ok_of_bind_eq_ok read
    have first := eq_textBytes_of_takeText taken
    have second := eq_textBytes_of_takeText taken'
    have shorter : rest.length < block.length := by
      rw [first, second, List.length_append, List.length_append, length_textBytes]
      omega
    have enough' : rest.length ≤ fuel := by omega
    obtain ⟨behind, rfl, same⟩ := ih enough' read
    refine ⟨(key, value) :: behind, by simp, ?_⟩
    rw [headerBlock_cons, ← same, ← second, ← first]

theorem eq_headerBlock_of_decodeHeaders (read : decodeHeaders block = .ok headers) :
    block = headerBlock headers := by
  obtain ⟨behind, rfl, same⟩ := eq_headerBlock_of_decodeHeadersWithin (Nat.le_refl _) read
  exact same

end RpcClient.Bolt
