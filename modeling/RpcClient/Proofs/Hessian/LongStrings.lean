import RpcClient.Proofs.Hessian.Written

/-! Strings of any length. The head of a written string has room for the number of its characters modulo
65536, and readers go by the head. -/
namespace RpcClient.Hessian

variable {text : String}

/-- The characters that the head of a written string counts. -/
def counted (text : String) : String :=
  String.ofList (text.toList.take (text.length % 65536))

/-- The characters behind those. -/
def uncounted (text : String) : String :=
  String.ofList (text.toList.drop (text.length % 65536))

theorem length_counted (text : String) : (counted text).length = text.length % 65536 := by
  rw [counted, String.length_ofList, List.length_take, String.length_toList]
  exact Nat.min_eq_left (Nat.mod_le _ _)

theorem encode_counted_append (text : String) :
    Utf8.encode (counted text) ++ Utf8.encode (uncounted text) = Utf8.encode text := by
  simp only [Utf8.encode, counted, uncounted, String.toList_ofList, Utf8.encodeChars]
  rw [← List.flatMap_append, List.take_append_drop]

theorem counted_eq_self_iff : counted text = text ↔ text.length ≤ 65535 := by
  constructor
  · intro same
    have length := length_counted text
    rw [same] at length
    omega
  · intro short
    rw [counted, Nat.mod_eq_of_lt (Nat.lt_succ_of_le short), ← String.length_toList, List.take_length,
      String.ofList_toList]

theorem uncounted_of_short (short : text.length ≤ 65535) : uncounted text = "" := by
  rw [uncounted, Nat.mod_eq_of_lt (Nat.lt_succ_of_le short), ← String.length_toList, List.drop_length,
    String.ofList_nil]

theorem readString_writeString (text : String) (position : Nat) (classes : Array Nat) (rest : Bytes) :
    readString (.of position classes (writeString text ++ rest)) =
      .ok (some (counted text))
        (.of (position + (stringHead text.length ++ Utf8.encode (counted text)).length) classes
          (Utf8.encode (uncounted text) ++ rest)) := by
  have split : writeString text ++ rest = (stringHead text.length ++ Utf8.encode (counted text)) ++
      (Utf8.encode (uncounted text) ++ rest) := by
    rw [writeString, ← encode_counted_append, List.append_assoc, List.append_assoc, List.append_assoc]
  rw [split]
  exact takes_readString_head position classes (length_counted text) _

/-- Reading a string that was written gives the characters that its head counts and stops behind them,
whatever follows. This is the string itself, and all that was written of it, exactly up to 65535 characters. -/
theorem written_string_read (text : String) (position : Nat) (classes : Array Nat) (rest : Bytes) :
    readString (.of position classes (writeString text ++ rest)) =
      .ok (some (counted text))
        (.of (position + (stringHead text.length ++ Utf8.encode (counted text)).length) classes
          (Utf8.encode (uncounted text) ++ rest)) ∧
    (readString (.of position classes (writeString text ++ rest)) =
        .ok (some text) (.of (position + (writeString text).length) classes rest) ↔
      text.length ≤ 65535) := by
  have read := readString_writeString text position classes rest
  refine ⟨read, ?_⟩
  rw [← counted_eq_self_iff]
  constructor
  · intro whole
    injection read.symm.trans whole with value
    exact Option.some.inj value
  · intro same
    rw [read, uncounted_of_short (counted_eq_self_iff.mp same), same]
    rfl

/-- A string of `count` characters of one byte each. -/
def repeated (count : Nat) : String := String.ofList (List.replicate count 'a')

theorem length_repeated (count : Nat) : (repeated count).length = count := by
  rw [repeated, String.length_ofList, List.length_replicate]

theorem length_encode_repeated (count : Nat) : (Utf8.encode (repeated count)).length = count := by
  rw [Utf8.encode, repeated, String.toList_ofList, Utf8.encodeChars]
  induction count with
  | zero => rfl
  | succ count ih =>
    rw [List.replicate_succ, List.flatMap_cons, List.length_append, ih, Nat.add_comm]
    rfl

/-- A string of one character more than a head can count is read as an empty one. -/
theorem long_string_read_as_empty :
    (repeated 65536).length = 65536 ∧ (writeString (repeated 65536)).length = 65539 ∧
    readString (.ofBytes (writeString (repeated 65536))) =
      .ok (some "") (.of 3 #[] (Utf8.encode (repeated 65536))) := by
  have length := length_repeated 65536
  have nothing : counted (repeated 65536) = "" := by
    rw [counted, length, Nat.mod_self, List.take_zero, String.ofList_nil]
  have all : uncounted (repeated 65536) = repeated 65536 := by
    rw [uncounted, length, Nat.mod_self, List.drop_zero, String.ofList_toList]
  have head : (stringHead 65536).length = 3 := rfl
  have read := readString_writeString (repeated 65536) 0 #[] []
  rw [List.append_nil, List.append_nil, nothing, all, length, List.length_append, head] at read
  refine ⟨length, ?_, (congrArg readString (Cursor.eq_of _)).trans read⟩
  rw [writeString, List.length_append, length_encode_repeated, length, head]

end RpcClient.Hessian
