import RpcClient.Proofs.Hessian.Binaries

/-! Values that hold no others, in each of their forms. -/
namespace RpcClient.Hessian

/-- The lowest `width` bytes of `value` in two's complement. -/
def signed (width : Nat) (value : Int) : Bytes :=
  Bytes.bigEndian width (value % (Nat.pow 256 width : Nat)).toNat

/-! ### Integers -/

inductive IntForm where
  | tiny (value : Int) (fits : -16 ≤ value ∧ value < 48)
  | short (value : Int) (fits : -2048 ≤ value ∧ value < 2048)
  | medium (value : Int) (fits : -262144 ≤ value ∧ value < 262144)
  | full (value : Int32)

def IntForm.value : IntForm → Int
  | .tiny value _ | .short value _ | .medium value _ => value
  | .full value => value.toInt

def IntForm.bytes : IntForm → Bytes
  | .tiny value _ => signed 1 (0x90 + value)
  | .short value _ => signed 2 (0xc800 + value)
  | .medium value _ => signed 3 (0xd40000 + value)
  | .full value => 0x49 :: signed 4 value.toInt

theorem ofByte_tinyInt : ∀ n < 0x40, Tag.ofByte (UInt8.ofNat (0x80 + n)) = .tinyInt ((n : Int) - 0x10) := by
  decide

theorem ofByte_shortInt : ∀ n < 0x10, Tag.ofByte (UInt8.ofNat (0xc0 + n)) = .shortInt ((n : Int) - 8) := by
  decide

theorem ofByte_mediumInt : ∀ n < 8, Tag.ofByte (UInt8.ofNat (0xd0 + n)) = .mediumInt ((n : Int) - 4) := by
  decide

theorem signed_natCast (width n : Nat) : signed width n = Bytes.bigEndian width n := by
  rw [signed, ← Int.natCast_emod, Int.toNat_natCast, Bytes.bigEndian_mod]

/-- A number above a first byte: what there is of it in units of the first byte is added to that. -/
theorem signed_eq_cons (first width n : Nat) {value : Int}
    (number : value = (first * Nat.pow 256 width + n : Nat)) :
    signed (width + 1) value = UInt8.ofNat (first + n / Nat.pow 256 width) :: Bytes.bigEndian width n := by
  have digits := Bytes.bigEndian_mod width (first * Nat.pow 256 width + n)
  rw [Nat.mul_add_mod_self_right, Bytes.bigEndian_mod] at digits
  rw [number, signed_natCast, Bytes.bigEndian, Nat.mul_comm, Nat.mul_add_div (Bytes.pow_pos width),
    Nat.mul_comm, ← digits]

theorem signed_four (value : Int) : ∃ high low, signed 4 value = Bytes.bigEndian 2 high ++ Bytes.bigEndian 2 low ∧
    high < 0x10000 ∧ low < 0x10000 ∧ (high * 0x10000 + low : Int) = value % 0x100000000 := by
  obtain ⟨n, number⟩ := Int.eq_ofNat_of_zero_le (Int.emod_nonneg value (by decide : (0x100000000 : Int) ≠ 0))
  have bytes : signed 4 value = Bytes.bigEndian 4 n := by
    rw [signed, show ((Nat.pow 256 4 : Nat) : Int) = 0x100000000 from rfl, number, Int.toNat_natCast]
  have low : Bytes.bigEndian 2 (n % 0x10000) = Bytes.bigEndian 2 n := Bytes.bigEndian_mod 2 n
  refine ⟨n / 0x10000, n % 0x10000, ?_, ?_, Nat.mod_lt _ (by decide), ?_⟩
  · rw [bytes, Bytes.bigEndian_add 2 2, low]
  · omega
  · omega

theorem takes_readInt (position : Nat) (classes : Array Nat) (form : IntForm) :
    Takes readInt position classes form.bytes form.value classes := by
  cases form with
  | tiny value fits =>
    obtain ⟨n, rfl⟩ : ∃ n : Nat, value = n - 0x10 := ⟨(value + 0x10).toNat, by omega⟩
    have bytes : signed 1 (0x90 + ((n : Int) - 0x10)) = [UInt8.ofNat (0x80 + n)] ++ [] := by
      simpa [Bytes.bigEndian] using signed_eq_cons 0x80 0 n (by simp; omega)
    rw [IntForm.bytes, bytes]
    apply (Takes.byte position classes _).bind
    rw [ofByte_tinyInt n (by omega)]
    exact Takes.pure _ classes _
  | short value fits =>
    obtain ⟨n, rfl⟩ : ∃ n : Nat, value = n - 0x800 := ⟨(value + 0x800).toNat, by omega⟩
    have bytes : signed 2 (0xc800 + ((n : Int) - 0x800)) =
        [UInt8.ofNat (0xc0 + n / 256)] ++ ([UInt8.ofNat n] ++ []) := by
      simpa [Bytes.bigEndian] using signed_eq_cons 0xc0 1 n (by simp; omega)
    have value : (((n / 256 : Nat) : Int) - 8) * 256 + (UInt8.ofNat n).toNat = n - 0x800 := by
      rw [UInt8.toNat_ofNat']
      omega
    rw [IntForm.bytes, bytes]
    apply (Takes.byte position classes _).bind
    rw [ofByte_shortInt _ (by omega)]
    apply (Takes.byte _ classes _).bind
    rw [value]
    exact Takes.pure _ classes _
  | medium value fits =>
    obtain ⟨n, rfl⟩ : ∃ n : Nat, value = n - 0x40000 := ⟨(value + 0x40000).toNat, by omega⟩
    have bytes : signed 3 (0xd40000 + ((n : Int) - 0x40000)) =
        [UInt8.ofNat (0xd0 + n / 65536)] ++ (Bytes.bigEndian 2 (n % 65536) ++ []) := by
      rw [show Bytes.bigEndian 2 (n % 65536) = Bytes.bigEndian 2 n from Bytes.bigEndian_mod 2 n]
      simpa using signed_eq_cons 0xd0 2 n (by simp; omega)
    have value : (((n / 65536 : Nat) : Int) - 4) * 65536 + (n % 65536 : Nat) = n - 0x40000 := by omega
    rw [IntForm.bytes, bytes]
    apply (Takes.byte position classes _).bind
    rw [ofByte_mediumInt _ (by omega)]
    apply (takes_word _ classes (Nat.mod_lt _ (by decide))).bind
    rw [value]
    exact Takes.pure _ classes _
  | full value =>
    obtain ⟨high, low, bytes, highFits, lowFits, sum⟩ := signed_four value.toInt
    have wrapped : Int.bmod (high * 65536 + low) UInt32.size = value.toInt := by
      rw [sum]
      exact (Int.emod_bmod _ UInt32.size).trans (Int.bmod_eq_of_le value.le_toInt value.toInt_lt)
    rw [IntForm.bytes, bytes, ← List.append_nil (Bytes.bigEndian 2 low)]
    apply (Takes.byte position classes 0x49).bind
    apply (takes_word _ classes highFits).bind
    apply (takes_word _ classes lowFits).bind
    rw [wrapped]
    exact Takes.pure _ classes _

example : (IntForm.short (-256) (by decide)).bytes = [0xc7, 0] := by decide

/-- A length or a class number. -/
theorem takes_readLength (position : Nat) (classes : Array Nat) {form : IntForm} {n : Nat}
    (number : form.value = n) : Takes readLength position classes form.bytes n classes := by
  rw [← List.append_nil form.bytes]
  apply (takes_readInt position classes form).bind
  rw [number]
  exact Takes.pure _ classes n

/-! ### Longs, doubles and dates -/

inductive LongForm where
  | tiny (value : Int) (fits : -8 ≤ value ∧ value < 16)
  | short (value : Int) (fits : -2048 ≤ value ∧ value < 2048)
  | medium (value : Int) (fits : -262144 ≤ value ∧ value < 262144)
  | int (value : Int32)
  | full (value : Int64)

def LongForm.bytes : LongForm → Bytes
  | .tiny value _ => signed 1 (0xe0 + value)
  | .short value _ => signed 2 (0xf800 + value)
  | .medium value _ => signed 3 (0x3c0000 + value)
  | .int value => 0x59 :: signed 4 value.toInt
  | .full value => 0x4c :: signed 8 value.toInt

inductive DoubleForm where
  | zero
  | one
  | byte (value : Int8)
  | short (value : Int16)
  | word (bits : UInt32)
  | full (bits : UInt64)

def DoubleForm.bytes : DoubleForm → Bytes
  | .zero => [0x5b]
  | .one => [0x5c]
  | .byte value => 0x5d :: signed 1 value.toInt
  | .short value => 0x5e :: signed 2 value.toInt
  | .word bits => 0x5f :: Bytes.bigEndian 4 bits.toNat
  | .full bits => 0x44 :: Bytes.bigEndian 8 bits.toNat

inductive DateForm where
  | milliseconds (value : Int64)
  | minutes (value : Int32)

def DateForm.bytes : DateForm → Bytes
  | .milliseconds value => 0x4a :: signed 8 value.toInt
  | .minutes value => 0x4b :: signed 4 value.toInt

theorem ofByte_tinyLong : ∀ n < 0x18, Tag.ofByte (UInt8.ofNat (0xd8 + n)) = .scalar 0 := by decide

theorem ofByte_shortLong : ∀ n < 0x10, Tag.ofByte (UInt8.ofNat (0xf0 + n)) = .scalar 1 := by decide

theorem ofByte_mediumLong : ∀ n < 8, Tag.ofByte (UInt8.ofNat (0x38 + n)) = .scalar 2 := by decide

@[simp]
theorem length_signed (width : Nat) (value : Int) : (signed width value).length = width :=
  Bytes.length_bigEndian width _

/-- Bytes whose first tells the number of the others. -/
def IsScalar (bytes : Bytes) : Prop :=
  ∃ head behind, bytes = head :: behind ∧ Tag.ofByte head = .scalar behind.length

theorem takes_skipWithin_scalar (position : Nat) (classes : Array Nat) (room : Nat) {bytes : Bytes}
    (scalar : IsScalar bytes) : Takes (skipWithin (room + 1)) position classes bytes () classes := by
  obtain ⟨head, behind, rfl, tag⟩ := scalar
  refine takes_skipWithin_body tag rfl rfl ?_
  rw [skipBody, tag]
  exact Takes.skip _ classes behind

theorem LongForm.isScalar (form : LongForm) : IsScalar form.bytes := by
  cases form with
  | tiny value fits =>
    obtain ⟨n, rfl⟩ : ∃ n : Nat, value = n - 8 := ⟨(value + 8).toNat, by omega⟩
    exact ⟨_, _, signed_eq_cons 0xd8 0 n (by simp; omega),
      ofByte_tinyLong _ (by simp; omega)⟩
  | short value fits =>
    obtain ⟨n, rfl⟩ : ∃ n : Nat, value = n - 0x800 := ⟨(value + 0x800).toNat, by omega⟩
    exact ⟨_, _, signed_eq_cons 0xf0 1 n (by simp; omega),
      ofByte_shortLong _ (by simp; omega)⟩
  | medium value fits =>
    obtain ⟨n, rfl⟩ : ∃ n : Nat, value = n - 0x40000 := ⟨(value + 0x40000).toNat, by omega⟩
    exact ⟨_, _, signed_eq_cons 0x38 2 n (by simp; omega),
      ofByte_mediumLong _ (by simp; omega)⟩
  | int value => exact ⟨0x59, _, rfl, by rw [length_signed]; rfl⟩
  | full value => exact ⟨0x4c, _, rfl, by rw [length_signed]; rfl⟩

theorem DoubleForm.isScalar (form : DoubleForm) : IsScalar form.bytes := by
  cases form with
  | zero => exact ⟨0x5b, [], rfl, rfl⟩
  | one => exact ⟨0x5c, [], rfl, rfl⟩
  | byte value => exact ⟨0x5d, _, rfl, by rw [length_signed]; rfl⟩
  | short value => exact ⟨0x5e, _, rfl, by rw [length_signed]; rfl⟩
  | word bits => exact ⟨0x5f, _, rfl, by rw [Bytes.length_bigEndian]; rfl⟩
  | full bits => exact ⟨0x44, _, rfl, by rw [Bytes.length_bigEndian]; rfl⟩

theorem DateForm.isScalar (form : DateForm) : IsScalar form.bytes := by
  cases form with
  | milliseconds value => exact ⟨0x4a, _, rfl, by rw [length_signed]; rfl⟩
  | minutes value => exact ⟨0x4b, _, rfl, by rw [length_signed]; rfl⟩

/-! ### All of them -/

inductive Atom where
  | null
  | boolean (value : Bool)
  | int (form : IntForm)
  | long (form : LongForm)
  | double (form : DoubleForm)
  | date (form : DateForm)
  | string (form : StringForm)
  | binary (form : BinaryForm) (whole : form.IsWhole)
  | reference (number : IntForm)

def Atom.bytes : Atom → Bytes
  | .null => [0x4e]
  | .boolean value => [if value then 0x54 else 0x46]
  | .int form => form.bytes
  | .long form => form.bytes
  | .double form => form.bytes
  | .date form => form.bytes
  | .string form => form.bytes
  | .binary form _ => form.bytes
  | .reference number => 0x51 :: number.bytes

theorem takes_skipWithin_atom (position : Nat) (classes : Array Nat) (room : Nat) (atom : Atom) :
    Takes (skipWithin (room + 1)) position classes atom.bytes () classes := by
  cases atom with
  | null => exact takes_skipWithin_body rfl rfl rfl (Takes.pure _ classes ())
  | boolean value => cases value <;> exact takes_skipWithin_body rfl rfl rfl (Takes.pure _ classes ())
  | int form => exact takes_skipWithin_int (takes_readInt position classes form) room
  | long form => exact takes_skipWithin_scalar position classes room form.isScalar
  | double form => exact takes_skipWithin_scalar position classes room form.isScalar
  | date form => exact takes_skipWithin_scalar position classes room form.isScalar
  | string form => exact takes_skipWithin_string (takes_readString_form position classes form) room
  | binary form whole => exact takes_skipWithin_binary position classes room whole
  | reference number => exact takes_skipWithin_body rfl rfl rfl (takes_readInt _ classes number).discard

end RpcClient.Hessian
