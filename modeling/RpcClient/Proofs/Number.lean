import RpcClient.Text.Number

/-! What is read as a whole number: at least one digit, perhaps behind a plus sign. How many digits there are
does not matter, only what they amount to. -/
namespace RpcClient.Number

theorem le_ofDigitChars (digits : List Char) (high : Nat) : high ≤ Nat.ofDigitChars 10 digits high := by
  rw [Nat.ofDigitChars_eq_ofDigitChars_zero]
  exact Nat.le_trans (Nat.le_mul_of_pos_left _ (Nat.pow_pos (by decide))) (Nat.le_add_right _ _)

theorem go_iff {limit high n : Nat} {digits : List Char} (low : high < limit) :
    read?.go limit high digits = some n ↔
      (∀ c ∈ digits, c.isDigit = true) ∧ Nat.ofDigitChars 10 digits high = n ∧ n < limit := by
  induction digits generalizing high with
  | nil =>
    constructor
    · rintro ⟨⟩
      exact ⟨List.forall_mem_nil _, rfl, low⟩
    · rintro ⟨-, rfl, -⟩
      rfl
  | cons c digits ih =>
    rw [List.forall_mem_cons, Nat.ofDigitChars_cons, Nat.mul_comm, read?.go]
    by_cases digit : c.isDigit = true
    · rw [if_pos digit]
      dsimp only
      by_cases small : high * 10 + (c.toNat - '0'.toNat) < limit
      · rw [if_pos small, ih small]
        exact ⟨fun ⟨all, value⟩ => ⟨⟨digit, all⟩, value⟩, fun ⟨⟨_, all⟩, value⟩ => ⟨all, value⟩⟩
      · -- the number grows with each digit, so that it stays at the limit or above
        rw [if_neg small]
        refine iff_of_false (Option.some_ne_none n).symm fun ⟨_, value, below⟩ => absurd ?_ small
        exact Nat.lt_of_le_of_lt (le_ofDigitChars digits _) (value ▸ below)
    · rw [if_neg digit]
      exact iff_of_false (Option.some_ne_none n).symm fun ⟨⟨first, _⟩, _⟩ => absurd first digit

/-- The characters write the number in decimal. -/
inductive Writes (n : Nat) : List Char → Prop where
  | plain {digits : List Char} : digits ≠ [] → (∀ c ∈ digits, c.isDigit = true) →
      Nat.ofDigitChars 10 digits 0 = n → Writes n digits
  | signed {digits : List Char} : digits ≠ [] → (∀ c ∈ digits, c.isDigit = true) →
      Nat.ofDigitChars 10 digits 0 = n → Writes n ('+' :: digits)

variable {limit n : Nat} {digits : List Char} {text : String}

theorem readDigits?_iff (positive : 0 < limit) :
    read?.readDigits? limit digits = some n ↔
      digits ≠ [] ∧ (∀ c ∈ digits, c.isDigit = true) ∧ Nat.ofDigitChars 10 digits 0 = n ∧ n < limit := by
  rw [read?.readDigits?]
  cases digits with
  | nil =>
    rw [List.isEmpty_nil, if_pos rfl]
    exact iff_of_false (Option.some_ne_none n).symm fun ⟨nonempty, _⟩ => nonempty rfl
  | cons c digits =>
    rw [List.isEmpty_cons, if_neg Bool.false_ne_true, go_iff positive]
    exact ⟨fun value => ⟨List.cons_ne_nil c digits, value⟩, fun ⟨_, value⟩ => value⟩

theorem read?_iff (positive : 0 < limit) :
    read? limit text = some n ↔ Writes n text.toList ∧ n < limit := by
  rw [read?]
  constructor
  · intro found
    split at found
    · cases found
    · next digits signed =>
      rw [signed]
      obtain ⟨nonempty, all, value, small⟩ := (readDigits?_iff positive).mp found
      exact ⟨.signed nonempty all value, small⟩
    · obtain ⟨nonempty, all, value, small⟩ := (readDigits?_iff positive).mp found
      exact ⟨.plain nonempty all value, small⟩
  · rintro ⟨written, small⟩
    generalize text.toList = characters at written
    cases written with
    | signed nonempty all value => exact (readDigits?_iff positive).mpr ⟨nonempty, all, value, small⟩
    | plain nonempty all value =>
      split
      · exact absurd rfl nonempty
      · exact absurd (all '+' List.mem_cons_self) (by decide)
      · exact (readDigits?_iff positive).mpr ⟨nonempty, all, value, small⟩

theorem read?_toString (small : n < limit) : read? limit (toString n) = some n := by
  rw [read?_iff (Nat.zero_lt_of_lt small), Nat.toString_eq_repr, Nat.toList_repr]
  refine ⟨.plain Nat.toDigits_ne_nil ?_ Nat.ofDigitChars_ten_toDigits, small⟩
  exact fun c member => Nat.isDigit_of_mem_toDigits (by decide) (by decide) member

end RpcClient.Number
