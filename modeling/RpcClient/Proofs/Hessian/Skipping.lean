import RpcClient.Proofs.Hessian.Parts

/-! Stepping over values. The first byte of a value tells how it is stepped over, and values that stand in a row
are stepped over one by one. -/
namespace RpcClient.Hessian

variable {action : Read Unit} {position room : Nat} {classes classes' classes'' : Array Nat} {head : UInt8}
  {behind used : Bytes} {pieces : List Bytes} {a : String} {number : Int} {tag : Tag}

/-! ### Values in a row -/

/-- From here `action` takes the pieces in turn, each from where the one before it ends. -/
inductive TakesEach (action : Read Unit) : Nat → Array Nat → List Bytes → Array Nat → Prop where
  | nil {position : Nat} {classes : Array Nat} : TakesEach action position classes [] classes
  | cons {position : Nat} {classes classes' classes'' : Array Nat} {piece : Bytes} {pieces : List Bytes}
      (first : Takes action position classes piece () classes')
      (others : TakesEach action (position + piece.length) classes' pieces classes'') :
      TakesEach action position classes (piece :: pieces) classes''

theorem TakesEach.of_forall (each : ∀ piece ∈ pieces, ∀ position, Takes action position classes piece () classes)
    (position : Nat) : TakesEach action position classes pieces classes := by
  induction pieces generalizing position with
  | nil => exact .nil
  | cons piece pieces ih =>
    exact .cons (each piece (.head _) position) (ih (fun other member => each other (.tail _ member)) _)

theorem TakesEach.times (each : TakesEach action position classes pieces classes') :
    Takes (times pieces.length action) position classes pieces.flatten () classes' := by
  induction each with
  | nil => exact Takes.pure _ _ ()
  | cons first others ih => exact first.bind ih

/-- What `action` takes starts with a byte that is no end mark. -/
def StopsAtEnd (action : Read Unit) : Prop :=
  ∀ ⦃position classes used classes'⦄, Takes action position classes used () classes' →
    ∃ head behind, used = head :: behind ∧ Tag.ofByte head ≠ .endMark

theorem TakesEach.length_le (each : TakesEach action position classes pieces classes')
    (stops : StopsAtEnd action) : pieces.length ≤ pieces.flatten.length := by
  induction each with
  | nil => exact Nat.le_refl 0
  | cons first others ih =>
    obtain ⟨head, behind, rfl, -⟩ := stops first
    simp only [List.length_cons, List.flatten_cons, List.length_append]
    omega

theorem TakesEach.untilEndWithin (each : TakesEach action position classes pieces classes')
    (stops : StopsAtEnd action) {fuel : Nat} (enough : pieces.length < fuel) :
    Takes (untilEndWithin fuel action) position classes (pieces.flatten ++ [0x5a]) () classes' := by
  induction each generalizing fuel with
  | @nil position classes =>
    obtain ⟨fuel, rfl⟩ := Nat.exists_eq_succ_of_ne_zero (Nat.ne_zero_of_lt enough)
    have ended : (Tag.ofByte 0x5a == .endMark) = true := by decide
    apply Takes.peek_bind
    rw [if_pos ended]
    exact (Takes.byte position classes 0x5a).discard
  | @cons position classes classes' classes'' piece pieces first others ih =>
    obtain ⟨fuel, rfl⟩ := Nat.exists_eq_succ_of_ne_zero (Nat.ne_zero_of_lt enough)
    have rest : Takes (do action; Hessian.untilEndWithin fuel action) position classes
        (piece ++ (pieces.flatten ++ [0x5a])) () classes'' := first.bind (ih (Nat.lt_of_succ_lt_succ enough))
    obtain ⟨head, behind, rfl, more⟩ := stops first
    rw [List.flatten_cons, List.append_assoc]
    apply Takes.peek_bind
    -- no end mark, so another piece is taken
    rw [beq_false_of_ne more, if_neg Bool.false_ne_true]
    exact rest

theorem TakesEach.untilEnd (each : TakesEach action position classes pieces classes')
    (stops : StopsAtEnd action) :
    Takes (untilEnd action) position classes (pieces.flatten ++ [0x5a]) () classes' := by
  have rounds : ∀ budget, (pieces.flatten ++ [0x5a]).length ≤ budget →
      Takes (Hessian.untilEndWithin budget action) position classes (pieces.flatten ++ [0x5a]) () classes' := by
    intro budget enough
    have fewer := each.length_le stops
    rw [List.length_append, List.length_singleton] at enough
    exact each.untilEndWithin stops (by omega)
  exact Takes.get_remaining rounds

/-! ### First bytes -/

theorem startsString_of_startsInt (starts : tag.startsInt = true) : tag.startsString = false := by
  cases tag <;> first | rfl | cases starts

theorem skipWithin_eq_skipBody (announced : Tag.ofByte head = tag) (notString : tag.startsString = false)
    (notInt : tag.startsInt = false) :
    skipWithin (room + 1) (.of position classes (head :: behind)) =
      skipBody (skipWithin room) head (.of (position + 1) classes behind) := by
  have looked : peek (.of position classes (head :: behind)) =
      .ok head (.of position classes (head :: behind)) := rfl
  have first : byte (.of position classes (head :: behind)) = .ok head (.of (position + 1) classes behind) :=
    Takes.byte position classes head behind
  rw [skipWithin, bind_of_ok looked]
  simp only [announced, notString, notInt, Bool.false_eq_true, if_false]
  exact bind_of_ok first

theorem takes_skipWithin_body (announced : Tag.ofByte head = tag) (notString : tag.startsString = false)
    (notInt : tag.startsInt = false)
    (takes : Takes (skipBody (skipWithin room) head) (position + 1) classes behind () classes') :
    Takes (skipWithin (room + 1)) position classes (head :: behind) () classes' := by
  intro rest
  rw [List.cons_append, skipWithin_eq_skipBody announced notString notInt, takes rest, List.length_cons,
    Nat.add_assoc, Nat.add_comm 1]

theorem stopsAtEnd_skipWithin (room : Nat) : StopsAtEnd (skipWithin room) := by
  intro position classes used classes' takes
  have taken := takes []
  rw [List.append_nil] at taken
  cases room with
  | zero => cases taken
  | succ room =>
    cases used with
    | nil => cases taken
    | cons head behind =>
      refine ⟨head, behind, rfl, ?_⟩
      intro ended
      rw [skipWithin_eq_skipBody ended rfl rfl, skipBody, ended] at taken
      cases taken

/-! ### Strings and integers -/

theorem exists_cons_of_takes_readInt (int : Takes readInt position classes used number classes') :
    ∃ head behind, used = head :: behind ∧ (Tag.ofByte head).startsInt = true := by
  have taken := int []
  rw [List.append_nil] at taken
  cases used with
  | nil => cases taken
  | cons head behind =>
    refine ⟨head, behind, rfl, ?_⟩
    obtain ⟨b, c, first, taken⟩ := bind_eq_ok taken
    cases first
    cases tag : Tag.ofByte head with
    | tinyInt value => rfl
    | shortInt high => rfl
    | mediumInt high => rfl
    | int => rfl
    | _ =>
      rw [tag] at taken
      cases taken

/-- A string is stepped over by reading it. -/
theorem takes_skipWithin_string (text : Takes readString position classes used (some a) classes') (room : Nat) :
    Takes (skipWithin (room + 1)) position classes used () classes' := by
  obtain ⟨head, behind, rfl, starts⟩ := exists_cons_of_takes_readString text
  apply Takes.peek_bind
  rw [if_pos starts]
  exact text.discard

theorem takes_skipType_string (text : Takes readString position classes used (some a) classes') :
    Takes skipType position classes used () classes' := by
  obtain ⟨head, behind, rfl, starts⟩ := exists_cons_of_takes_readString text
  apply Takes.peek_bind
  rw [if_pos starts]
  exact text.discard

theorem takes_skipWithin_int (int : Takes readInt position classes used number classes') (room : Nat) :
    Takes (skipWithin (room + 1)) position classes used () classes' := by
  obtain ⟨head, behind, rfl, starts⟩ := exists_cons_of_takes_readInt int
  have notString := startsString_of_startsInt starts
  apply Takes.peek_bind
  simp only [notString, starts, Bool.false_eq_true, if_false, if_true]
  exact int.discard

theorem takes_skipType_int (int : Takes readInt position classes used number classes') :
    Takes skipType position classes used () classes' := by
  obtain ⟨head, behind, rfl, starts⟩ := exists_cons_of_takes_readInt int
  have notString := startsString_of_startsInt starts
  apply Takes.peek_bind
  rw [notString, if_neg Bool.false_ne_true]
  exact int.discard

end RpcClient.Hessian
