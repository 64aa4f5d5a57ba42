import RpcClient.Text.Utf8

/-! Text as bytes and back: reading what was written gives the same text, and bytes that read as a
text are those that are written for it. -/
namespace RpcClient.Utf8

variable {bytes word : Bytes} {c : Char} {chars : List Char} {text : String}

/-- The bytes of one character: the shortest form, and no surrogates. -/
inductive Spells : Bytes → Char → Prop where
  | one {b : UInt8} : b.toNat < 0x80 → Spells [b] (Char.ofNat b.toNat)
  | two {b c : UInt8} : 0xc2 ≤ b.toNat → b.toNat < 0xe0 → isTail c = true →
      Spells [b, c] (charOfTwo b c)
  | three {b c d : UInt8} : 0xe0 ≤ b.toNat → b.toNat < 0xf0 → isSecondOfThree b c = true →
      isTail d = true → Spells [b, c, d] (charOfThree b c d)
  | four {b c d e : UInt8} : 0xf0 ≤ b.toNat → b.toNat < 0xf5 → isSecondOfFour b c = true →
      isTail d = true → isTail e = true → Spells [b, c, d, e] (charOfFour b c d e)

theorem isTail_iff {b : UInt8} : isTail b = true ↔ 0x80 ≤ b.toNat ∧ b.toNat < 0xc0 := by
  simp [isTail, UInt8.le_iff_toNat_le, UInt8.lt_iff_toNat_lt]

theorem isSecondOfThree_iff {b c : UInt8} : isSecondOfThree b c = true ↔
    0x80 ≤ c.toNat ∧ c.toNat < 0xc0 ∧ (b.toNat = 0xe0 → 0xa0 ≤ c.toNat) ∧
      (b.toNat = 0xed → c.toNat < 0xa0) := by
  simp only [isSecondOfThree, beq_iff_eq, ← UInt8.toNat_inj]
  split
  · simp_all [UInt8.le_iff_toNat_le, UInt8.lt_iff_toNat_lt]
    omega
  split
  · simp_all [UInt8.le_iff_toNat_le, UInt8.lt_iff_toNat_lt]
    omega
  · simp_all [isTail_iff]

theorem isSecondOfFour_iff {b c : UInt8} : isSecondOfFour b c = true ↔
    0x80 ≤ c.toNat ∧ c.toNat < 0xc0 ∧ (b.toNat = 0xf0 → 0x90 ≤ c.toNat) ∧
      (b.toNat = 0xf4 → c.toNat < 0x90) := by
  simp only [isSecondOfFour, beq_iff_eq, ← UInt8.toNat_inj]
  split
  · simp_all [UInt8.le_iff_toNat_le, UInt8.lt_iff_toNat_lt]
    omega
  split
  · simp_all [UInt8.le_iff_toNat_le, UInt8.lt_iff_toNat_lt]
    omega
  · simp_all [isTail_iff]

/-! ### One character -/

theorem spells_utf8EncodeChar (c : Char) : Spells (String.utf8EncodeChar c) c := by
  have valid : c.toNat < 0xd800 ∨ 0xdfff < c.toNat ∧ c.toNat < 0x110000 := c.valid
  have same : ∀ n, n = c.toNat → Char.ofNat n = c := fun n h => h ▸ Char.ofNat_toNat c
  have byte : ∀ n, n < 256 → (UInt8.ofNat n).toNat = n := fun n h => UInt8.toNat_ofNat_of_lt' h
  have tail : ∀ n, (UInt8.ofNat (n % 64 + 128)).toNat = n % 64 + 128 := fun n => byte _ (by omega)
  simp only [String.utf8EncodeChar, show c.val.toNat = c.toNat from rfl]
  split
  · have first := byte c.toNat (by omega)
    have spells := Spells.one (b := UInt8.ofNat c.toNat) (by omega)
    rwa [same _ first] at spells
  split
  · have first := byte (c.toNat / 64 % 32 + 192) (by omega)
    have spells := Spells.two (b := UInt8.ofNat (c.toNat / 64 % 32 + 192))
      (c := UInt8.ofNat (c.toNat % 64 + 128)) (by omega) (by omega)
      (by rw [isTail_iff, tail]; omega)
    rwa [charOfTwo, same _ (by rw [first, tail]; omega)] at spells
  split
  · have first := byte (c.toNat / 4096 % 16 + 224) (by omega)
    have spells := Spells.three (b := UInt8.ofNat (c.toNat / 4096 % 16 + 224))
      (c := UInt8.ofNat (c.toNat / 64 % 64 + 128)) (d := UInt8.ofNat (c.toNat % 64 + 128))
      (by omega) (by omega) (by rw [isSecondOfThree_iff, first, tail]; omega)
      (by rw [isTail_iff, tail]; omega)
    rwa [charOfThree, same _ (by rw [first, tail, tail]; omega)] at spells
  · have first := byte (c.toNat / 262144 % 8 + 240) (by omega)
    have spells := Spells.four (b := UInt8.ofNat (c.toNat / 262144 % 8 + 240))
      (c := UInt8.ofNat (c.toNat / 4096 % 64 + 128)) (d := UInt8.ofNat (c.toNat / 64 % 64 + 128))
      (e := UInt8.ofNat (c.toNat % 64 + 128))
      (by omega) (by omega) (by rw [isSecondOfFour_iff, first, tail]; omega)
      (by rw [isTail_iff, tail]; omega) (by rw [isTail_iff, tail]; omega)
    rwa [charOfFour, same _ (by rw [first, tail, tail, tail]; omega)] at spells

theorem val_ofNat {n : Nat} (valid : n.isValidChar) : (Char.ofNat n).val.toNat = n := by
  rw [Char.ofNat, dif_pos valid]
  rfl

theorem Spells.eq (spells : Spells word c) : word = String.utf8EncodeChar c := by
  have byte : ∀ (b : UInt8) n, b.toNat = n → b = UInt8.ofNat n := fun b n h => h ▸ b.ofNat_toNat.symm
  cases spells with
  | @one b ascii =>
    have number := val_ofNat (n := b.toNat) (.inl (by omega))
    simp only [String.utf8EncodeChar, number]
    rw [if_pos (by omega), UInt8.ofNat_toNat]
  | @two b c low high tail =>
    rw [isTail_iff] at tail
    have number := val_ofNat (n := (b.toNat - 0xc0) * 64 + (c.toNat - 0x80)) (.inl (by omega))
    simp only [String.utf8EncodeChar, charOfTwo, number]
    rw [if_neg (by omega), if_pos (by omega), ← byte b _ (by omega), ← byte c _ (by omega)]
  | @three b c d low high second tail =>
    rw [isTail_iff] at tail
    rw [isSecondOfThree_iff] at second
    have number := val_ofNat
      (n := ((b.toNat - 0xe0) * 64 + (c.toNat - 0x80)) * 64 + (d.toNat - 0x80))
      (by unfold Nat.isValidChar; omega)
    simp only [String.utf8EncodeChar, charOfThree, number]
    rw [if_neg (by omega), if_neg (by omega), if_pos (by omega), ← byte b _ (by omega),
      ← byte c _ (by omega), ← byte d _ (by omega)]
  | @four b c d e low high second third tail =>
    rw [isTail_iff] at third tail
    rw [isSecondOfFour_iff] at second
    have number := val_ofNat
      (n := (((b.toNat - 0xf0) * 64 + (c.toNat - 0x80)) * 64 + (d.toNat - 0x80)) * 64 +
        (e.toNat - 0x80)) (.inr (by omega))
    simp only [String.utf8EncodeChar, charOfFour, number]
    rw [if_neg (by omega), if_neg (by omega), if_neg (by omega), ← byte b _ (by omega),
      ← byte c _ (by omega), ← byte d _ (by omega), ← byte e _ (by omega)]

/-! ### Scanning -/

theorem scanAfter_append (done extra : List Piece) (bytes : Bytes) :
    scanAfter (done ++ extra) bytes = extra.reverse ++ scanAfter done bytes := by
  -- along the scan itself: each of its branches only puts one more piece in front of `done`
  fun_induction scanAfter done bytes
  all_goals rw [scanAfter.eq_def]
  all_goals simp only [*, if_true, if_false, Bool.false_eq_true, List.reverse_append,
    List.reverse_cons, ← List.cons_append]

theorem scanAfter_singleton (piece : Piece) (bytes : Bytes) :
    scanAfter [piece] bytes = piece :: scan bytes :=
  scanAfter_append [] [piece] bytes

theorem Spells.scan_append (spells : Spells word c) (rest : Bytes) :
    scan (word ++ rest) = .char c :: scan rest := by
  rw [← scanAfter_singleton, scan]
  cases spells with
  | one ascii =>
    rw [List.singleton_append, scanAfter.eq_def]
    simp [UInt8.lt_iff_toNat_lt, ascii]
  | @two b c low high tail =>
    have above : ¬ b.toNat < 0x80 ∧ ¬ b.toNat < 0xc2 := by omega
    rw [List.cons_append, List.cons_append, scanAfter.eq_def]
    simp [UInt8.lt_iff_toNat_lt, above, high, tail]
  | @three b c d low high second tail =>
    have above : ¬ b.toNat < 0x80 ∧ ¬ b.toNat < 0xc2 ∧ ¬ b.toNat < 0xe0 := by omega
    simp only [List.cons_append]
    rw [scanAfter.eq_def]
    simp [UInt8.lt_iff_toNat_lt, above, high, second, tail]
  | @four b c d e low high second third tail =>
    have above : ¬ b.toNat < 0x80 ∧ ¬ b.toNat < 0xc2 ∧ ¬ b.toNat < 0xe0 ∧ ¬ b.toNat < 0xf0 := by omega
    simp only [List.cons_append]
    rw [scanAfter.eq_def]
    simp [UInt8.lt_iff_toNat_lt, above, high, second, third, tail]

/-- Bytes start with a character or with a flaw. -/
theorem scan_cases (bytes : Bytes) : bytes = [] ∨
    (∃ word c rest, Spells word c ∧ bytes = word ++ rest) ∨
    ∃ length pieces, scan bytes = .invalid length :: pieces ∨ scan bytes = .cut length :: pieces := by
  have invalid : ∀ n more, ∃ length pieces, scanAfter [.invalid n] more = .invalid length :: pieces ∨
      scanAfter [.invalid n] more = .cut length :: pieces :=
    fun n more => ⟨n, scan more, .inl (scanAfter_singleton _ _)⟩
  have cut : ∀ n, ∃ length pieces, [Piece.cut n].reverse = .invalid length :: pieces ∨
      [Piece.cut n].reverse = .cut length :: pieces :=
    fun n => ⟨n, [], .inr rfl⟩
  simp only [scan]
  -- four branches find a character, all others go on behind a flaw or end with one
  fun_cases scanAfter [] bytes
  case case2 b more ascii => exact .inr (.inl ⟨[b], _, more, .one ascii, rfl⟩)
  case case5 b _ above high c more tail =>
    exact .inr (.inl ⟨[b, c], _, more, .two (Nat.not_lt.mp above) high tail, rfl⟩)
  case case9 b _ _ above high c second d more tail =>
    exact .inr (.inl ⟨[b, c, d], _, more, .three (Nat.not_lt.mp above) high second tail, rfl⟩)
  case case15 b _ _ _ above high c second d third e more tail =>
    exact .inr (.inl ⟨[b, c, d, e], _, more, .four (Nat.not_lt.mp above) high second third tail, rfl⟩)
  all_goals simp only [invalid, cut, or_true, true_or]

theorem Spells.length_pos (spells : Spells word c) : 0 < word.length := by
  cases spells <;> exact Nat.zero_lt_succ _

/-! ### Texts -/

theorem scan_encodeChars (chars : List Char) : scan (encodeChars chars) = chars.map .char := by
  induction chars with
  | nil => rfl
  | cons c chars ih =>
    rw [encodeChars, List.flatMap_cons, (spells_utf8EncodeChar c).scan_append, List.map_cons, ← ih]
    rfl

theorem joinAfter_map_char (index : Nat) (done chars : List Char) :
    joinAfter index done (chars.map .char) = .ok (done.reverse ++ chars) := by
  induction chars generalizing index done with
  | nil => rw [List.map_nil, joinAfter, List.append_nil]
  | cons c chars ih => rw [List.map_cons, joinAfter, ih, List.reverse_cons, List.append_assoc]; rfl

theorem encodeChars_of_joinAfter {index : Nat} {done : List Char}
    (read : joinAfter index done (scan bytes) = .ok chars) :
    ∃ behind, chars = done.reverse ++ behind ∧ encodeChars behind = bytes := by
  induction size : bytes.length using Nat.strongRecOn generalizing bytes index done with
  | ind size ih =>
    obtain rfl | ⟨word, c, rest, spells, rfl⟩ | ⟨length, pieces, flaw | flaw⟩ := scan_cases bytes
    · cases read
      exact ⟨[], (List.append_nil _).symm, rfl⟩
    · have positive := spells.length_pos
      rw [List.length_append] at size
      rw [spells.scan_append, joinAfter] at read
      obtain ⟨behind, rfl, rfl⟩ := ih rest.length (by omega) read rfl
      refine ⟨c :: behind, by simp, ?_⟩
      rw [encodeChars, List.flatMap_cons, ← spells.eq]
      rfl
    · rw [flaw] at read
      cases read
    · rw [flaw] at read
      cases read

theorem decode_encode (text : String) : decode (encode text) = .ok text := by
  rw [decode, decodeChars, encode, scan_encodeChars, joinAfter_map_char]
  exact congrArg Except.ok String.ofList_toList

theorem encode_of_decode (read : decode bytes = .ok text) : encode text = bytes := by
  rw [decode] at read
  cases chars : decodeChars bytes with
  | error flaw =>
    rw [chars] at read
    cases read
  | ok chars' =>
    rw [chars] at read
    cases read
    obtain ⟨behind, rfl, same⟩ := encodeChars_of_joinAfter chars
    rw [encode, String.toList_ofList]
    exact same

theorem length_encode (text : String) : (encode text).length = text.utf8ByteSize := by
  rw [← String.size_toByteArray, ← String.utf8Encode_toList, List.utf8Encode, List.size_toByteArray]
  rfl

end RpcClient.Utf8
