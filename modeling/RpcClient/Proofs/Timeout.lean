import RpcClient.Timeout
import RpcClient.Proofs.Number

/-! How long a request is allowed to take: what it says itself, or else its header, or else the default. -/
namespace RpcClient

theorem isDigit_iff {c : Char} : c.isDigit = true ↔ 48 ≤ c.toNat ∧ c.toNat ≤ 57 := by
  rw [Char.isDigit, Bool.and_eq_true, decide_eq_true_iff, decide_eq_true_iff]
  rfl

namespace Blank

variable {front middle back : List Char} {text : String}

/-- Neither end is blank. -/
structure Bare (middle : List Char) : Prop where
  first : ∀ c ∈ middle.head?, isBlank c = false
  last : ∀ c ∈ middle.getLast?, isBlank c = false

theorem dropWhile_of_head? (kept : ∀ c ∈ middle.head?, isBlank c = false) :
    middle.dropWhile isBlank = middle := by
  cases middle with
  | nil => rfl
  | cons c middle => rw [List.dropWhile_cons, kept c rfl, if_neg Bool.false_ne_true]

/-- What stands between blanks is what remains, if it is bare. -/
theorem trim_of_bare (split : text.toList = front ++ middle ++ back) (nonempty : middle ≠ [])
    (before : ∀ c ∈ front, isBlank c = true) (behind : ∀ c ∈ back, isBlank c = true)
    (bare : Bare middle) : trim text = String.ofList middle := by
  have first : (middle ++ back).dropWhile isBlank = middle ++ back := by
    apply dropWhile_of_head?
    rw [List.head?_append, Option.or_of_isSome (List.isSome_head?.mpr nonempty)]
    exact bare.first
  have last : middle.reverse.dropWhile isBlank = middle.reverse := by
    apply dropWhile_of_head?
    rw [List.head?_reverse]
    exact bare.last
  rw [trim, split, List.append_assoc, List.dropWhile_append_of_pos before, first, List.reverse_append,
    List.dropWhile_append_of_pos fun c member => behind c (List.mem_reverse.mp member), last,
    List.reverse_reverse]

/-- What trimming takes away is blank. -/
theorem exists_trim (text : String) :
    ∃ front back, text.toList = front ++ (trim text).toList ++ back ∧
      (∀ c ∈ front, isBlank c = true) ∧ ∀ c ∈ back, isBlank c = true := by
  let rest := text.toList.dropWhile isBlank
  refine ⟨text.toList.takeWhile isBlank, (rest.reverse.takeWhile isBlank).reverse, ?_,
    List.all_eq_true.mp List.all_takeWhile,
    fun c member => List.all_eq_true.mp List.all_takeWhile c (List.mem_reverse.mp member)⟩
  rw [trim, String.toList_ofList, List.append_assoc, ← List.reverse_append, List.takeWhile_append_dropWhile,
    List.reverse_reverse, List.takeWhile_append_dropWhile]

theorem isBlank_eq_false_of_isDigit {c : Char} (digit : c.isDigit = true) : isBlank c = false := by
  have range := isDigit_iff.mp digit
  simp only [isBlank]
  grind

end Blank

namespace Number

variable {n : Nat} {characters : List Char}

theorem Writes.ne_nil (written : Writes n characters) : characters ≠ [] := by
  cases written with
  | plain nonempty => exact nonempty
  | signed => exact List.cons_ne_nil _ _

theorem Writes.bare (written : Writes n characters) : Blank.Bare characters := by
  have digits : ∀ c ∈ characters, c = '+' ∨ c.isDigit = true := by
    cases written with
    | plain _ all => exact fun c member => .inr (all c member)
    | signed _ all => exact List.forall_mem_cons.mpr ⟨.inl rfl, fun c member => .inr (all c member)⟩
  have kept : ∀ c ∈ characters, Blank.isBlank c = false := by
    intro c member
    obtain rfl | digit := digits c member
    · decide
    · exact Blank.isBlank_eq_false_of_isDigit digit
  exact ⟨fun c member => kept c (List.mem_of_head? member), fun c member => kept c (List.mem_of_getLast? member)⟩

end Number

namespace Request

variable {request timed : Request} {text : String} {ms : UInt32}

/-- The text says a time: a positive number of milliseconds, perhaps between blanks. -/
def Says (text : String) (ms : UInt32) : Prop :=
  ms ≠ 0 ∧ ∃ front number back, text.toList = front ++ number ++ back ∧ Number.Writes ms.toNat number ∧
    (∀ c ∈ front, Blank.isBlank c = true) ∧ ∀ c ∈ back, Blank.isBlank c = true

/-- The request with the time that it is allowed. -/
inductive Timed (request : Request) : Request → Prop where
  | own : request.timeoutMs ≠ 0 → Timed request request
  | said {ms : UInt32} : request.timeoutMs = 0 → Says (request.header.get timeoutKey) ms →
      Timed request { request with timeoutMs := ms }
  | default : request.timeoutMs = 0 → (∀ ms, ¬ Says (request.header.get timeoutKey) ms) →
      Timed request { request with timeoutMs := 3000 }

theorem read?_trim_iff : Number.read? UInt32.size (Blank.trim text) = some ms.toNat ↔
    ∃ front number back, text.toList = front ++ number ++ back ∧ Number.Writes ms.toNat number ∧
      (∀ c ∈ front, Blank.isBlank c = true) ∧ ∀ c ∈ back, Blank.isBlank c = true := by
  rw [Number.read?_iff (by decide)]
  constructor
  · rintro ⟨written, -⟩
    obtain ⟨front, back, split, before, behind⟩ := Blank.exists_trim text
    exact ⟨front, _, back, split, written, before, behind⟩
  · rintro ⟨front, number, back, split, written, before, behind⟩
    rw [Blank.trim_of_bare split written.ne_nil before behind written.bare, String.toList_ofList]
    exact ⟨written, ms.toNat_lt⟩

theorem readTimeout?_iff : readTimeout? text = some ms ↔ Says text ms := by
  rw [Says, ← read?_trim_iff, readTimeout?]
  cases read : Number.read? UInt32.size (Blank.trim text) with
  | none =>
    exact iff_of_false (Option.some_ne_none ms).symm fun ⟨_, found⟩ => Option.some_ne_none _ found.symm
  | some n =>
    obtain ⟨-, small⟩ := (Number.read?_iff (by decide)).mp read
    cases n with
    | zero =>
      refine iff_of_false (Option.some_ne_none ms).symm fun ⟨positive, zero⟩ => positive ?_
      exact UInt32.toNat_inj.mp (Option.some.inj zero).symm
    | succ n =>
      have same : (UInt32.ofNat (n + 1)).toNat = n + 1 := UInt32.toNat_ofNat_of_lt' small
      constructor
      · rintro ⟨⟩
        refine ⟨fun zero => ?_, congrArg some same.symm⟩
        cases same.symm.trans (congrArg UInt32.toNat zero)
      · rintro ⟨-, value⟩
        exact congrArg some (UInt32.toNat_inj.mp (same.trans (Option.some.inj value)))

theorem timed_iff : Timed request timed ↔ timed = request.resolveTimeout := by
  rw [resolveTimeout]
  constructor
  · intro allowed
    cases allowed with
    | own set => rw [if_pos set]
    | said unset told => rw [if_neg (not_not_intro unset), readTimeout?_iff.mpr told, Option.getD_some]
    | default unset silent =>
      have none : readTimeout? (request.header.get timeoutKey) = none :=
        Option.eq_none_iff_forall_ne_some.mpr fun ms found => silent ms (readTimeout?_iff.mp found)
      rw [if_neg (not_not_intro unset), none]
      rfl
  · rintro rfl
    by_cases unset : request.timeoutMs = 0
    · rw [if_neg (not_not_intro unset)]
      cases found : readTimeout? (request.header.get timeoutKey) with
      | some ms => exact .said unset (readTimeout?_iff.mp found)
      | none =>
        refine .default unset fun ms told => ?_
        cases found.symm.trans (readTimeout?_iff.mpr told)
    · rw [if_pos unset]
      exact .own unset

end Request
end RpcClient
