import RpcClient.Hessian.Writer
import RpcClient.Proofs.Hessian.Parts

/-! Strings that were written are read, whatever stands around them. -/
namespace RpcClient.Hessian

variable {text key value : String} {entries : List (String × String)}

/-! ### Strings -/

/-- What is written of a string is a last part, of as many characters as its head has room to count. -/
theorem exists_lastPart {length : Nat} (counted : text.length = length % 65536) :
    ∃ ending, text.length < PartKind.string.limit ending ∧
      stringHead length ++ Utf8.encode text = PartKind.string.lastPart ending text := by
  rw [stringHead]
  split
  next short =>
    obtain rfl : text.length = length := by omega
    refine ⟨.short, short, ?_⟩
    simp [PartKind.lastPart, PartKind.first, Ending.digits, PartKind.string]
  split
  next medium =>
    obtain rfl : text.length = length := by omega
    exact ⟨.medium, medium, rfl⟩
  next =>
    have fits : text.length < 0x10000 := by omega
    refine ⟨.long, fits, ?_⟩
    -- of the length, two bytes are written
    have digits : Bytes.bigEndian 2 length = Bytes.bigEndian 2 text.length := by
      rw [counted]
      exact (Bytes.bigEndian_mod 2 length).symm
    rw [digits]
    rfl

theorem takes_readString_head (position : Nat) (classes : Array Nat) {length : Nat}
    (counted : text.length = length % 65536) :
    Takes readString position classes (stringHead length ++ Utf8.encode text) (some text) classes := by
  obtain ⟨ending, fits, part⟩ := exists_lastPart counted
  have closes : Closes "" (PartKind.string.lastPart ending text) (some ("" ++ text)) := .last ending text fits
  rw [String.empty_append, ← part] at closes
  exact takes_readString_closes position classes [] (by simp) closes

theorem takes_readString (position : Nat) (classes : Array Nat) (short : text.length ≤ 65535) :
    Takes readString position classes (writeString text) (some text) classes := by
  have counted : text.length = text.length % 65536 := (Nat.mod_eq_of_lt (Nat.lt_succ_of_le short)).symm
  rw [writeString]
  exact takes_readString_head position classes counted

theorem exists_writeString_eq_cons (short : text.length ≤ 65535) :
    ∃ head behind, writeString text = head :: behind ∧ (Tag.ofByte head).startsString = true :=
  exists_cons_of_takes_readString (takes_readString 0 #[] short)

theorem takes_readStringOrSkip (position : Nat) (classes : Array Nat) (short : text.length ≤ 65535) :
    Takes readStringOrSkip position classes (writeString text) (some text) classes := by
  intro rest
  rw [readStringOrSkip, takes_readString position classes short rest]

/-! ### Maps of strings -/

def writeEntries (entries : List (String × String)) : Bytes :=
  entries.flatMap fun (key, value) => writeString key ++ writeString value

theorem writeEntries_cons (key value : String) (entries : List (String × String)) :
    writeEntries ((key, value) :: entries) =
      writeString key ++ (writeString value ++ writeEntries entries) := by
  rw [writeEntries, List.flatMap_cons, List.append_assoc]
  rfl

theorem length_le_writeEntries
    (short : ∀ entry ∈ entries, entry.1.length ≤ 65535 ∧ entry.2.length ≤ 65535) :
    entries.length ≤ (writeEntries entries).length := by
  induction entries with
  | nil => exact Nat.zero_le _
  | cons entry entries ih =>
    obtain ⟨key, value⟩ := entry
    obtain ⟨shortKey, -⟩ := short (key, value) List.mem_cons_self
    obtain ⟨head, behind, start, -⟩ := exists_writeString_eq_cons shortKey
    have others := ih fun entry member => short entry (.tail _ member)
    rw [writeEntries_cons, start]
    simp only [List.length_cons, List.length_append]
    omega

end RpcClient.Hessian
