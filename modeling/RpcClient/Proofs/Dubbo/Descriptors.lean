import RpcClient.Dubbo

/-! The parameters of a method descriptor. Every descriptor that the grammar of types allows is counted by its types.
An array mark without an element type behind it is not looked for, so that marks at the end count for nothing. -/
namespace RpcClient.Dubbo

variable {type front rest descriptor : List Char} {count marks n : Nat}

/-- A type as descriptors write it: a basic one by its letter, a class by its name, an array by a mark in front of the
type of its elements. -/
inductive FieldType : List Char → Prop where
  | basic {c : Char} : c ∈ ['Z', 'B', 'C', 'D', 'F', 'I', 'J', 'S'] → FieldType [c]
  | object {name : List Char} : ';' ∉ name → FieldType ('L' :: (name ++ [';']))
  | array {element : List Char} : FieldType element → FieldType ('[' :: element)

/-- A descriptor is `count` types in a row. -/
def Declares (descriptor : List Char) (count : Nat) : Prop :=
  ∃ types : List (List Char), (∀ type ∈ types, FieldType type) ∧ types.flatten = descriptor ∧ types.length = count

theorem Declares.cons (first : FieldType type) (others : Declares rest count) :
    Declares (type ++ rest) (count + 1) := by
  obtain ⟨types, allTypes, rfl, rfl⟩ := others
  exact ⟨type :: types, List.forall_mem_cons.mpr ⟨first, allTypes⟩, List.flatten_cons, List.length_cons⟩

/-! ### Types are counted -/

theorem countFrom_name {name : List Char} (plain : ';' ∉ name) (count : Nat) (rest : List Char) :
    countFrom count true (name ++ ';' :: rest) = countFrom (count + 1) false rest := by
  induction name with
  | nil => simp [countFrom]
  | cons c name ih =>
    obtain ⟨other, plain⟩ := List.ne_and_not_mem_of_not_mem_cons plain
    rw [List.cons_append, countFrom, if_pos rfl, if_neg other.symm, ih plain]

theorem countFrom_type (isType : FieldType type) (count : Nat) (rest : List Char) :
    countFrom count false (type ++ rest) = countFrom (count + 1) false rest := by
  induction isType with
  | @basic c letter =>
    have apart : c ≠ '[' ∧ c ≠ 'L' := by
      constructor <;> rintro rfl <;> revert letter <;> decide
    rw [List.singleton_append, countFrom, if_neg Bool.false_ne_true, if_neg apart.1, if_neg apart.2, if_pos letter]
  | @object name plain =>
    rw [List.cons_append, List.append_assoc, countFrom, if_neg Bool.false_ne_true, if_neg (by decide), if_pos rfl]
    exact countFrom_name plain count rest
  | array _ ih => rw [List.cons_append, countFrom, if_neg Bool.false_ne_true, if_pos rfl, ih]

theorem countFrom_declared (declared : Declares front n) (count : Nat) (rest : List Char) :
    countFrom count false (front ++ rest) = countFrom (count + n) false rest := by
  obtain ⟨types, allTypes, rfl, rfl⟩ := declared
  induction types generalizing count with
  | nil => rfl
  | cons type types ih =>
    obtain ⟨first, allTypes⟩ := List.forall_mem_cons.mp allTypes
    rw [List.flatten_cons, List.append_assoc, countFrom_type first, ih _ allTypes, List.length_cons, Nat.add_assoc,
      Nat.add_comm 1]

theorem countFrom_marks (count marks : Nat) : countFrom count false (List.replicate marks '[') = some count := by
  induction marks with
  | zero => rfl
  | succ marks ih => rw [List.replicate_succ, countFrom, if_neg Bool.false_ne_true, if_pos rfl, ih]

/-! ### What is counted are types -/

theorem name_of_countFrom (counted : countFrom count true descriptor = some n) :
    ∃ name rest, ';' ∉ name ∧ descriptor = name ++ ';' :: rest ∧ countFrom (count + 1) false rest = some n := by
  induction descriptor with
  | nil => cases counted
  | cons c rest ih =>
    rw [countFrom, if_pos rfl] at counted
    split at counted
    · next ends => exact ⟨[], rest, List.not_mem_nil, by rw [ends, List.nil_append], counted⟩
    · next goes =>
      obtain ⟨name, behind, plain, rfl, counted'⟩ := ih counted
      exact ⟨c :: name, behind, List.not_mem_cons_of_ne_of_not_mem (Ne.symm goes) plain, rfl, counted'⟩

theorem declares_of_countFrom (counted : countFrom count false descriptor = some n) :
    ∃ front marks k, Declares front k ∧ descriptor = front ++ List.replicate marks '[' ∧ n = count + k := by
  -- on the length, because a class takes its whole name off the descriptor
  induction length : descriptor.length using Nat.strongRecOn generalizing descriptor count with
  | ind size ih =>
    subst length
    cases descriptor with
    | nil =>
      cases counted
      exact ⟨[], 0, 0, ⟨[], List.forall_mem_nil _, rfl, rfl⟩, rfl, rfl⟩
    | cons c rest =>
      have one (type behind : List Char) (isType : FieldType type) (split : c :: rest = type ++ behind)
          (shorter : behind.length < (c :: rest).length)
          (counted : countFrom (count + 1) false behind = some n) :
          ∃ front marks k, Declares front k ∧ c :: rest = front ++ List.replicate marks '[' ∧ n = count + k := by
        obtain ⟨front, marks, k, declared, rfl, rfl⟩ := ih _ shorter counted rfl
        refine ⟨type ++ front, marks, k + 1, declared.cons isType, ?_, by omega⟩
        rw [split, List.append_assoc]
      rw [countFrom, if_neg Bool.false_ne_true] at counted
      split at counted
      · next mark =>
        subst mark
        obtain ⟨front, marks, k, ⟨types, allTypes, rfl, rfl⟩, rfl, rfl⟩ := ih _ (Nat.lt_succ_self _) counted rfl
        cases types with
        | nil => exact ⟨[], marks + 1, 0, ⟨[], List.forall_mem_nil _, rfl, rfl⟩, rfl, rfl⟩
        | cons type types =>
          -- the mark belongs to the first type behind it
          obtain ⟨first, allTypes⟩ := List.forall_mem_cons.mp allTypes
          refine ⟨('[' :: type) ++ types.flatten, marks, types.length + 1, ?_, rfl, rfl⟩
          exact Declares.cons first.array ⟨types, allTypes, rfl, rfl⟩
      · split at counted
        · next class_ =>
          subst class_
          obtain ⟨name, behind, plain, rfl, counted'⟩ := name_of_countFrom counted
          refine one _ behind (.object plain) (by simp) ?_ counted'
          rw [List.length_cons, List.length_append, List.length_cons]
          omega
        · split at counted
          · next letter => exact one [c] rest (.basic letter) rfl (Nat.lt_succ_self _) counted
          · cases counted

/-! ### Ends -/

theorem FieldType.getLast?_ne_mark (isType : FieldType type) : type.getLast? ≠ some '[' ∧ type ≠ [] := by
  induction isType with
  | @basic c letter =>
    refine ⟨?_, List.cons_ne_nil _ _⟩
    rintro same
    rw [List.getLast?_singleton, Option.some_inj] at same
    subst same
    revert letter
    decide
  | @object name plain =>
    refine ⟨?_, List.cons_ne_nil _ _⟩
    rw [← List.cons_append, List.getLast?_concat]
    decide
  | @array element _ ih =>
    refine ⟨?_, List.cons_ne_nil _ _⟩
    rw [List.getLast?_cons_of_ne_nil ih.2]
    exact ih.1

theorem Declares.getLast?_ne_mark (declared : Declares descriptor count) : descriptor.getLast? ≠ some '[' := by
  obtain ⟨types, allTypes, rfl, rfl⟩ := declared
  induction types with
  | nil => nofun
  | cons type types ih =>
    obtain ⟨first, allTypes⟩ := List.forall_mem_cons.mp allTypes
    rw [List.flatten_cons, List.getLast?_append]
    cases last : types.flatten.getLast? with
    | none => exact first.getLast?_ne_mark.1
    | some c =>
      rw [last] at ih
      exact ih allTypes

/-- Counting accepts a descriptor exactly if it is a row of types with array marks behind them, and gives the number of
the types. So the descriptors of `count` types are those that are counted so and do not end in an array mark. -/
theorem parameters_counted (descriptor : String) (count : Nat) :
    (argumentCount? descriptor = some count ↔
      ∃ front marks, Declares front count ∧ descriptor.toList = front ++ List.replicate marks '[') ∧
    (Declares descriptor.toList count ↔
      argumentCount? descriptor = some count ∧ descriptor.toList.getLast? ≠ some '[') := by
  have counted : argumentCount? descriptor = some count ↔
      ∃ front marks, Declares front count ∧ descriptor.toList = front ++ List.replicate marks '[' := by
    constructor
    · intro counted
      obtain ⟨front, marks, k, declared, split, rfl⟩ := declares_of_countFrom counted
      rw [Nat.zero_add]
      exact ⟨front, marks, declared, split⟩
    · rintro ⟨front, marks, declared, split⟩
      rw [argumentCount?, split, countFrom_declared declared, countFrom_marks, Nat.zero_add]
  refine ⟨counted, ?_⟩
  rw [counted]
  constructor
  · intro declared
    exact ⟨⟨descriptor.toList, 0, declared, by simp⟩, declared.getLast?_ne_mark⟩
  · rintro ⟨⟨front, marks, declared, split⟩, closed⟩
    cases marks with
    | zero => rwa [split, List.replicate_zero, List.append_nil]
    | succ marks =>
      rw [split, List.replicate_succ', ← List.append_assoc, List.getLast?_concat] at closed
      exact absurd rfl closed

/-- A single array mark is counted as no parameter at all, though it is no type and no row of them. -/
theorem bare_mark_counted :
    argumentCount? "[" = some 0 ∧ ∀ count, ¬ Declares "[".toList count := by
  refine ⟨by decide, fun count declared => ?_⟩
  exact declared.getLast?_ne_mark (by decide)

end RpcClient.Dubbo
