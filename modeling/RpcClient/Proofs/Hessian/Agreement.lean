import Mathlib
import RpcClient.Proofs.Hessian.Reader
import RpcClient.Proofs.Hessian.Skipping

/-! Reading and stepping over find the same ends. A string or integer that is read is stepped over to where reading
it stops; a map that is read entry by entry ends where it ends value by value, if it ends at all in both. -/
namespace RpcClient.Hessian

variable {α β : Type} {m n : Read α} {c c' d : Cursor} {b head : UInt8} {position room fuel fuel' : Nat}
  {classes : Array Nat} {behind : Bytes} {value : Option String} {number : Int}
  {entries all : List (String × String)}

/-! ### More room -/

/-- Where `m` succeeds, `n` does the same. -/
def Refines (m n : Read α) : Prop := ∀ ⦃c a c'⦄, m c = .ok a c' → n c = .ok a c'

namespace Refines

theorem refl (m : Read α) : Refines m m := fun _ _ _ success => success

theorem trans {k : Read α} (first : Refines m n) (second : Refines n k) : Refines m k :=
  fun _ _ _ success => second (first success)

theorem throw (flaw : Flaw) (n : Read α) : Refines (throw flaw) n := by
  intro c a c' success
  cases success

theorem bind {f g : α → Read β} (first : Refines m n) (second : ∀ a, Refines (f a) (g a)) :
    Refines (m >>= f) (n >>= g) := by
  intro c b c' success
  obtain ⟨a, d, success, success'⟩ := bind_eq_ok success
  rw [bind_of_ok (first success)]
  exact second a success'

theorem ite {condition : Prop} [Decidable condition] {m' n' : Read α} (yes : Refines m n) (no : Refines m' n') :
    Refines (if condition then m else m') (if condition then n else n') := by
  split
  · exact yes
  · exact no

variable {inner inner' : Read Unit}

theorem times (each : Refines inner inner') (count : Nat) : Refines (times count inner) (times count inner') := by
  induction count with
  | zero => exact refl _
  | succ count ih => exact each.bind fun _ => ih

theorem untilEndWithin (each : Refines inner inner') (fuel : Nat) :
    Refines (untilEndWithin fuel inner) (untilEndWithin fuel inner') := by
  induction fuel with
  | zero => exact refl _
  | succ fuel ih =>
    apply (refl peek).bind
    intro b
    exact (refl _).ite (each.bind fun _ => ih)

theorem untilEnd (each : Refines inner inner') : Refines (untilEnd inner) (untilEnd inner') :=
  (refl get).bind fun c => each.untilEndWithin c.remaining

theorem skipFields (number : Nat) (each : Refines inner inner') :
    Refines (skipFields number inner) (skipFields number inner') := by
  apply (refl get).bind
  intro c
  cases c.classes[number]? with
  | none => exact throw _ _
  | some fields => exact each.times fields

theorem skipBody (each : Refines inner inner') (b : UInt8) : Refines (skipBody inner b) (skipBody inner' b) := by
  have counted : Refines (do Hessian.times (← readLength) inner) (do Hessian.times (← readLength) inner') :=
    (refl readLength).bind each.times
  rw [Hessian.skipBody, Hessian.skipBody]
  cases Tag.ofByte b with
  | typedList => exact (refl skipType).bind fun _ => each.untilEnd
  | typedFixedList => exact (refl skipType).bind fun _ => counted
  | list => exact each.untilEnd
  | fixedList => exact counted
  | shortTypedList length => exact (refl skipType).bind fun _ => each.times length
  | shortList length => exact each.times length
  | map => exact each.untilEnd
  | typedMap => exact (refl skipType).bind fun _ => each.untilEnd
  | classDefinition =>
    apply (refl (discard readString)).bind
    intro _
    apply (refl readLength).bind
    intro fields
    apply (refl (Hessian.times fields (discard readString))).bind
    intro _
    exact (refl (defineClass fields)).bind fun _ => each
  | object => exact (refl readLength).bind fun number => each.skipFields number
  | shortObject number => exact each.skipFields number
  | _ => exact refl _

end Refines

theorem refines_skipWithin_succ (room : Nat) : Refines (skipWithin room) (skipWithin (room + 1)) := by
  induction room with
  | zero => exact .throw .tooDeep _
  | succ room ih =>
    apply (Refines.refl peek).bind
    intro b
    exact (Refines.refl _).ite ((Refines.refl _).ite ((Refines.refl byte).bind ih.skipBody))

/-- What is stepped over with some room is stepped over in the same way with more. -/
theorem refines_skipWithin {room' : Nat} (le : room ≤ room') : Refines (skipWithin room) (skipWithin room') := by
  induction le with
  | refl => exact .refl _
  | step _ ih => exact ih.trans (refines_skipWithin_succ _)

/-! ### Strings and integers -/

theorem skipWithin_of_readString (success : readString c = .ok value c') (room : Nat) :
    skipWithin (room + 1) c = .ok () c' := by
  obtain ⟨position, classes, bytes, rfl⟩ : ∃ position classes bytes, c = .of position classes bytes :=
    ⟨_, _, _, c.eq_of⟩
  cases bytes with
  | nil =>
    rw [readString, bind_get, Cursor.remaining_of] at success
    cases success
  | cons head behind =>
    have looked : peek (.of position classes (head :: behind)) =
        .ok head (.of position classes (head :: behind)) := rfl
    obtain starts | ⟨null, -, rfl⟩ := starts_of_readString success
    · rw [skipWithin, bind_of_ok looked]
      simp only [starts, if_true]
      exact bind_of_ok success
    · rw [skipWithin_eq_skipBody null rfl rfl, skipBody, null]
      rfl

theorem skipWithin_of_readInt (success : readInt c = .ok number c') (room : Nat) :
    skipWithin (room + 1) c = .ok () c' := by
  rw [c.eq_of] at success ⊢
  obtain ⟨used, classes', rest, split, rfl, -, takes⟩ := local_readInt.takes success
  rw [split]
  exact takes_skipWithin_int takes room rest

/-! ### Maps -/

theorem skipValue_of_readStringOrSkip (success : readStringOrSkip c = .ok value c') : skipValue c = .ok () c' := by
  rw [readStringOrSkip] at success
  cases read : readString c with
  | ok text d =>
    rw [read] at success
    cases success
    exact skipWithin_of_readString read maxDepth
  | error flaw d =>
    rw [read] at success
    obtain ⟨_, d, skipped, success⟩ := bind_eq_ok success
    cases success
    exact skipped

theorem peek_eq_ok (looked : peek c = .ok b c') :
    c = c' ∧ ∃ behind, c = .of c.position c.classes (b :: behind) := by
  have whole := c.eq_of
  rw [peek] at looked
  split at looked
  next => cases looked
  next first behind rest =>
    cases looked
    rw [rest] at whole
    exact ⟨rfl, behind, whole⟩

/-- No value starts with an end mark. -/
theorem ne_endMark_of_skipWithin (skipped : skipWithin room c = .ok () d) (looked : peek c = .ok b c) :
    Tag.ofByte b ≠ .endMark := by
  obtain ⟨-, behind, whole⟩ := peek_eq_ok looked
  intro ended
  cases room with
  | zero => cases skipped
  | succ room =>
    rw [whole, skipWithin_eq_skipBody ended rfl rfl, skipBody, ended] at skipped
    cases skipped

/-- Key by key and value by value, a map ends where it ends when its keys and values are stepped over in a row. -/
theorem readEntriesWithin_ends (lower : room ≤ maxDepth + 1)
    (read : readEntriesWithin fuel entries c = .ok all c')
    (skipped : untilEndWithin fuel' (skipWithin room) c = .ok () d) : c' = d := by
  -- a round of reading is two rounds of stepping over: both take the same key, and then the same value
  have same : ∀ {c e e' value}, readStringOrSkip c = .ok value e → skipWithin room c = .ok () e' → e' = e := by
    intro c e e' value read skipped
    cases (skipValue_of_readStringOrSkip read).symm.trans (refines_skipWithin lower skipped)
    rfl
  induction fuel generalizing fuel' entries c with
  | zero => cases read
  | succ fuel ih =>
    obtain _ | fuel' := fuel'
    · cases skipped
    obtain ⟨b, _, looked, read⟩ := bind_eq_ok read
    obtain ⟨rfl, -⟩ := peek_eq_ok looked
    rw [untilEndWithin, bind_of_ok looked] at skipped
    split at read
    next ended =>
      rw [if_pos ended] at skipped
      obtain ⟨_, _, closed, read⟩ := bind_eq_ok read
      cases closed.symm.trans skipped
      cases read
      rfl
    next going =>
      rw [if_neg going] at skipped
      obtain ⟨key, e, readKey, read⟩ := bind_eq_ok read
      obtain ⟨value, e', readValue, read⟩ := bind_eq_ok read
      obtain ⟨_, _, skippedKey, skipped⟩ := bind_eq_ok skipped
      obtain rfl := same readKey skippedKey
      obtain _ | fuel' := fuel'
      · cases skipped
      obtain ⟨b', _, looked', skipped⟩ := bind_eq_ok skipped
      obtain ⟨rfl, -⟩ := peek_eq_ok looked'
      have more := ne_endMark_of_skipWithin (skipValue_of_readStringOrSkip readValue) looked'
      rw [beq_false_of_ne more, if_neg Bool.false_ne_true] at skipped
      obtain ⟨_, _, skippedValue, skipped⟩ := bind_eq_ok skipped
      obtain rfl := same readValue skippedValue
      split at read
      · exact ih read skipped
      · exact ih read skipped

theorem readStringMap_ends (read : readStringMap c = .ok all c') (skipped : skipValue c = .ok () d) : c' = d := by
  have entries : ∀ {c}, (do readEntriesWithin (← get).remaining [] : Read _) c = .ok all c' →
      untilEnd (skipWithin maxDepth) c = .ok () d → c' = d :=
    fun read skipped => readEntriesWithin_ends (Nat.le_succ maxDepth) read skipped
  obtain ⟨position, classes, bytes, rfl⟩ : ∃ position classes bytes, c = .of position classes bytes :=
    ⟨_, _, _, c.eq_of⟩
  obtain ⟨b, e, first, read⟩ := bind_eq_ok read
  cases bytes with
  | nil => cases first
  | cons head behind =>
    cases (Takes.byte position classes head behind).symm.trans first
    cases tag : Tag.ofByte b with
    | map =>
      rw [tag] at read
      rw [skipValue, skipWithin_eq_skipBody tag rfl rfl, skipBody, tag] at skipped
      exact entries read skipped
    | typedMap =>
      rw [tag] at read
      rw [skipValue, skipWithin_eq_skipBody tag rfl rfl, skipBody, tag] at skipped
      obtain ⟨_, _, type, read⟩ := bind_eq_ok read
      obtain ⟨_, _, type', skipped⟩ := bind_eq_ok skipped
      cases type.symm.trans type'
      exact entries read skipped
    | _ =>
      rw [tag] at read
      cases read

/-- What is read as a string or an integer is stepped over, up to the same end and with the same classes; and a map
that can be read as well as stepped over ends in both at the same place, with the same classes. -/
theorem reading_agrees_with_skipping (c : Cursor) :
    (∀ value c', readString c = .ok value c' → skipValue c = .ok () c') ∧
    (∀ number c', readInt c = .ok number c' → skipValue c = .ok () c') ∧
    ∀ entries c' d, readStringMap c = .ok entries c' → skipValue c = .ok () d → c' = d :=
  ⟨fun _ _ success => skipWithin_of_readString success maxDepth,
    fun _ _ success => skipWithin_of_readInt success maxDepth,
    fun _ _ _ read skipped => readStringMap_ends read skipped⟩

/-- A typed map with a string in chunks, a class definition with an instance as a key, and a map as a value. -/
def mixedMap : Bytes :=
  [0x4d, 0x91, 0x52, 0, 1, 0x61, 0x01, 0x62, 0x01, 0x63, 0x43, 0x01, 0x50, 0x91, 0x01, 0x78, 0x61, 0x4e, 0x01, 0x64,
    0x01, 0x65, 0x48, 0x61, 0x90, 0x54, 0x5a, 0x5a]

theorem mixedMap_ends :
    (∃ c d, readStringMap (.of 3 #[2] mixedMap) = .ok [("ab", "c")] c ∧
      skipValue (.of 3 #[2] mixedMap) = .ok () d ∧ c = d) ∧
    skipValue (.of 4 #[2] (mixedMap.drop 1)) = .ok () (.of 5 #[2] (mixedMap.drop 2)) ∧
    skipValue (.of 5 #[2] (mixedMap.drop 2)) = .ok () (.of 11 #[2] (mixedMap.drop 8)) := by
  have number : readInt (.of 4 #[2] (mixedMap.drop 1)) = .ok 1 (.of 5 #[2] (mixedMap.drop 2)) := by cbv
  have text : readString (.of 5 #[2] (mixedMap.drop 2)) = .ok (some "ab") (.of 11 #[2] (mixedMap.drop 8)) := by
    cbv
  have read : readStringMap (.of 3 #[2] mixedMap) = .ok [("ab", "c")] (.of 31 #[2, 1] []) := by cbv
  have skipped : skipValue (.of 3 #[2] mixedMap) = .ok () (.of 31 #[2, 1] []) := by cbv
  exact ⟨⟨_, _, read, skipped, (reading_agrees_with_skipping _).2.2 _ _ _ read skipped⟩,
    (reading_agrees_with_skipping _).2.1 _ _ number, (reading_agrees_with_skipping _).1 _ _ text⟩

end RpcClient.Hessian
