import RpcClient.Bytes

/-! Numbers in byte strings: what was written is read back, what was read is written the same way,
and bytes behind a number do not matter. -/
namespace RpcClient.Bytes

variable {bytes front rest more : Bytes} {count width offset n : Nat}

theorem pow_pos (width : Nat) : 0 < Nat.pow 256 width := Nat.pow_pos (by decide)

theorem toNat_append (front bytes : Bytes) :
    toNat (front ++ bytes) = toNat front * Nat.pow 256 bytes.length + toNat bytes := by
  have behind : ∀ high, bytes.foldl (fun high byte => high * 256 + byte.toNat) high =
      high * Nat.pow 256 bytes.length + toNat bytes := by
    induction bytes with
    | nil => simp [toNat]
    | cons byte bytes ih =>
      intro high
      have power : Nat.pow 256 (bytes.length + 1) = 256 * Nat.pow 256 bytes.length := Nat.mul_comm _ _
      rw [List.length_cons, power, toNat, List.foldl_cons, List.foldl_cons, ih,
        ih (0 * 256 + byte.toNat), Nat.add_mul, Nat.mul_assoc, Nat.zero_mul, Nat.zero_add, Nat.add_assoc]
  rw [toNat, List.foldl_append, behind]
  rfl

theorem toNat_cons (byte : UInt8) (bytes : Bytes) :
    toNat (byte :: bytes) = byte.toNat * Nat.pow 256 bytes.length + toNat bytes := by
  rw [← List.singleton_append, toNat_append]
  simp [toNat]

theorem toNat_lt (bytes : Bytes) : toNat bytes < Nat.pow 256 bytes.length := by
  induction bytes with
  | nil => decide
  | cons byte bytes ih =>
    have digit : byte.toNat + 1 ≤ 256 := byte.toNat_lt
    have scaled := Nat.mul_le_mul_right (Nat.pow 256 bytes.length) digit
    have power : Nat.pow 256 (bytes.length + 1) = 256 * Nat.pow 256 bytes.length := Nat.mul_comm _ _
    rw [Nat.add_mul, Nat.one_mul] at scaled
    rw [toNat_cons, List.length_cons, power]
    omega

/-- Only as many bytes of a number are written as there is room for. -/
theorem bigEndian_mod (width n : Nat) :
    bigEndian width (n % Nat.pow 256 width) = bigEndian width n := by
  induction width generalizing n with
  | zero => rfl
  | succ width ih =>
    have power : Nat.pow 256 (width + 1) = Nat.pow 256 width * 256 := rfl
    have first : UInt8.ofNat (n / Nat.pow 256 width % 256) = UInt8.ofNat (n / Nat.pow 256 width) := by
      apply UInt8.toNat_inj.mp
      simp
    have behind := ih (n % (Nat.pow 256 width * 256))
    rw [Nat.mod_mul_right_mod, ih] at behind
    rw [bigEndian, bigEndian, power, Nat.mod_mul_right_div_self, first, ← behind]

theorem bigEndian_one (byte : UInt8) : bigEndian 1 byte.toNat = [byte] := by
  rw [bigEndian, bigEndian, show Nat.pow 256 0 = 1 from rfl, Nat.div_one, UInt8.ofNat_toNat]

theorem bigEndian_add (front width n : Nat) :
    bigEndian (front + width) n = bigEndian front (n / Nat.pow 256 width) ++ bigEndian width n := by
  induction front with
  | zero => rw [Nat.zero_add, bigEndian, List.nil_append]
  | succ front ih =>
    have power : Nat.pow 256 (front + width) = Nat.pow 256 width * Nat.pow 256 front := by
      rw [Nat.mul_comm]
      exact Nat.pow_add 256 front width
    rw [Nat.add_right_comm, bigEndian, bigEndian, ih, power, Nat.div_div_eq_div_mul, List.cons_append]

theorem toNat_bigEndian (fits : n < Nat.pow 256 width) : toNat (bigEndian width n) = n := by
  induction width generalizing n with
  | zero =>
    have zero : n = 0 := Nat.lt_one_iff.mp fits
    rw [zero]
    rfl
  | succ width ih =>
    have digit : n / Nat.pow 256 width < 256 := (Nat.div_lt_iff_lt_mul (pow_pos width)).mpr
      (Nat.mul_comm _ _ ▸ fits)
    rw [bigEndian, toNat_cons, length_bigEndian, ← bigEndian_mod, ih (Nat.mod_lt _ (pow_pos width)),
      UInt8.toNat_ofNat', Nat.mod_eq_of_lt digit, Nat.div_add_mod']

theorem bigEndian_toNat (bytes : Bytes) : bigEndian bytes.length (toNat bytes) = bytes := by
  induction bytes with
  | nil => rfl
  | cons byte bytes ih =>
    have small := toNat_lt bytes
    have first : (byte.toNat * Nat.pow 256 bytes.length + toNat bytes) / Nat.pow 256 bytes.length =
        byte.toNat := by
      rw [Nat.mul_comm, Nat.mul_add_div (pow_pos _), Nat.div_eq_of_lt small, Nat.add_zero]
    have behind : bigEndian bytes.length (byte.toNat * Nat.pow 256 bytes.length + toNat bytes) =
        bytes := by
      rw [← bigEndian_mod, Nat.mul_add_mod_self_right, Nat.mod_eq_of_lt small, ih]
    rw [toNat_cons, List.length_cons, bigEndian, first, behind, UInt8.ofNat_toNat]

/-! ### Cutting -/

theorem dropExactly_append (front rest : Bytes) :
    dropExactly front.length (front ++ rest) = some rest := by
  induction front with
  | nil => rfl
  | cons _ front ih => exact ih

theorem eq_append_of_dropExactly (cut : dropExactly count bytes = some rest) :
    bytes = bytes.take count ++ rest := by
  induction count generalizing bytes with
  | zero =>
    cases cut
    rfl
  | succ count ih =>
    cases bytes with
    | nil => cases cut
    | cons byte bytes => rw [List.take_succ_cons, List.cons_append, ← ih cut]

theorem dropExactly_eq_ite (count : Nat) (bytes : Bytes) :
    dropExactly count bytes = if count ≤ bytes.length then some (bytes.drop count) else none := by
  induction count generalizing bytes with
  | zero => simp [dropExactly]
  | succ count ih =>
    cases bytes with
    | nil => rfl
    | cons byte bytes =>
      simp only [dropExactly, ih, List.length_cons, Nat.add_le_add_iff_right, List.drop_succ_cons]

theorem dropExactly_eq_none_iff : dropExactly count bytes = none ↔ bytes.length < count := by
  rw [dropExactly_eq_ite, ite_eq_right_iff, ← Nat.not_le]
  simp only [reduceCtorEq, imp_false]

theorem eq_drop_of_dropExactly (cut : dropExactly count bytes = some rest) : rest = bytes.drop count := by
  rw [dropExactly_eq_ite, Option.ite_none_right_eq_some] at cut
  exact (Option.some.inj cut.2).symm

theorem dropExactly_append_of_eq_some (cut : dropExactly count bytes = some rest) (more : Bytes) :
    dropExactly count (bytes ++ more) = some (rest ++ more) := by
  induction count generalizing bytes with
  | zero =>
    cases cut
    rfl
  | succ count ih =>
    cases bytes with
    | nil => cases cut
    | cons byte bytes => exact ih cut

theorem numberAt_append (inside : offset + width ≤ bytes.length) (more : Bytes) :
    numberAt (bytes ++ more) offset width = numberAt bytes offset width := by
  rw [numberAt, numberAt, List.drop_append_of_le_length (by omega),
    List.take_append_of_le_length (by rw [List.length_drop]; omega)]

theorem numberAt_lt (bytes : Bytes) (offset width : Nat) :
    numberAt bytes offset width < Nat.pow 256 width := by
  have bound := toNat_lt ((bytes.drop offset).take width)
  exact Nat.lt_of_lt_of_le bound (Nat.pow_le_pow_right (by decide) (List.length_take_le _ _))

theorem numberAt_one {byte : UInt8} (here : bytes[offset]? = some byte) :
    numberAt bytes offset 1 = byte.toNat := by
  obtain ⟨inside, rfl⟩ := List.getElem?_eq_some_iff.mp here
  rw [numberAt, List.drop_eq_getElem_cons inside]
  exact Nat.zero_add _

/-! ### Rows of numbers -/

/-- Numbers of the given widths, one behind the other. -/
def row (fields : List (Nat × Nat)) : Bytes :=
  fields.flatMap fun (width, n) => bigEndian width n

/-- The numbers of the given widths that stand one behind the other from `offset` on. -/
def numbersFrom (bytes : Bytes) (offset : Nat) : (widths : List Nat) → List Nat
  | [] => []
  | width :: widths => numberAt bytes offset width :: numbersFrom bytes (offset + width) widths

theorem row_cons (width n : Nat) (fields : List (Nat × Nat)) :
    row ((width, n) :: fields) = bigEndian width n ++ row fields := by
  rw [row, List.flatMap_cons]
  rfl

theorem numbersFrom_row (fields : List (Nat × Nat)) (front rest : Bytes)
    (fits : ∀ field ∈ fields, field.2 < Nat.pow 256 field.1) :
    numbersFrom (front ++ (row fields ++ rest)) front.length (fields.map Prod.fst) =
      fields.map Prod.snd := by
  induction fields generalizing front with
  | nil => rfl
  | cons field fields ih =>
    obtain ⟨width, n⟩ := field
    have here : numberAt (front ++ (bigEndian width n ++ (row fields ++ rest))) front.length width =
        n := by
      rw [numberAt, List.drop_left, List.take_append_of_le_length (by simp),
        List.take_of_length_le (by simp), toNat_bigEndian (fits _ List.mem_cons_self)]
    have behind := ih (front ++ bigEndian width n) fun field member => fits field (.tail _ member)
    rw [List.length_append, length_bigEndian, List.append_assoc] at behind
    rw [row_cons, List.append_assoc, List.map_cons, numbersFrom, List.map_cons]
    exact congr (congrArg List.cons here) behind

theorem row_of_numbersFrom (fields : List (Nat × Nat))
    (read : numbersFrom bytes offset (fields.map Prod.fst) = fields.map Prod.snd)
    (inside : offset + (row fields).length ≤ bytes.length) :
    row fields = (bytes.drop offset).take (row fields).length := by
  induction fields generalizing offset with
  | nil => rfl
  | cons field fields ih =>
    obtain ⟨width, n⟩ := field
    rw [List.map_cons, List.map_cons, numbersFrom, List.cons.injEq] at read
    obtain ⟨here, read⟩ := read
    dsimp only at here read
    subst here
    rw [row_cons, List.length_append, length_bigEndian] at inside
    have first : bigEndian width (numberAt bytes offset width) = (bytes.drop offset).take width := by
      have length : ((bytes.drop offset).take width).length = width := by
        rw [List.length_take, List.length_drop]
        omega
      have same := bigEndian_toNat ((bytes.drop offset).take width)
      rwa [length] at same
    have behind := ih read (by omega)
    rw [← List.drop_drop] at behind
    rw [row_cons, List.length_append, length_bigEndian, List.take_add, ← first, ← behind]

theorem lt_of_numbersFrom (fields : List (Nat × Nat))
    (read : numbersFrom bytes offset (fields.map Prod.fst) = fields.map Prod.snd) :
    ∀ field ∈ fields, field.2 < Nat.pow 256 field.1 := by
  induction fields generalizing offset with
  | nil =>
    intro field member
    cases member
  | cons field fields ih =>
    rw [List.map_cons, List.map_cons, numbersFrom, List.cons.injEq] at read
    intro other member
    cases member with
    | head => exact read.1 ▸ numberAt_lt bytes offset field.1
    | tail _ member => exact ih read.2 other member

end RpcClient.Bytes
