import RpcClient.Proofs.Hessian.Local

/-! Each of the readers is local, and takes at least one byte where it succeeds. -/
namespace RpcClient.Hessian

theorem local_takeBytes (count : Nat) (taken : Bytes) : Local 0 (takeBytes count taken) := by
  induction count generalizing taken with
  | zero => exact Follows.pure taken
  | succ count ih => exact (Follows.byte.bind fun b => ih (b :: taken)).zero

theorem local_takeCharacters (count : Nat) (taken : Bytes) : Local 0 (takeCharacters count taken) := by
  induction count generalizing taken with
  | zero => exact Follows.pure taken
  | succ count ih =>
    apply Follows.zero
    apply Follows.byte.bind
    intro lead
    split
    · exact Follows.throw 0 .badLead _
    next width _ => exact (local_takeBytes (width - 1) (lead :: taken)).bind ih

theorem local_characters (count : Nat) : Local 0 (characters count) := by
  apply (local_takeCharacters count []).bind
  intro taken
  cases Utf8.decode taken.reverse with
  | ok text => exact Follows.pure text
  | error flaw => exact Follows.throw 0 (.badText flaw) _

theorem follows_readStringWithin (fuel : Nat) (text : String) :
    Follows 1 (readStringWithin fuel text) fun budget => readStringWithin budget text := by
  induction fuel generalizing text with
  | zero => exact Follows.throw 1 .endOfData _
  | succ fuel ih =>
    have last : ∀ length, Local 0 (do return some (text ++ (← characters length))) := fun length =>
      (local_characters length).bind fun part => Follows.pure (some (text ++ part))
    apply Follows.succ
    apply Follows.byte.bind_succ
    intro b
    -- only a part that is not the last goes round again
    split
    · exact Follows.pure none
    · exact last _
    · exact (Follows.byte.bind fun low => last _).zero
    · exact (Follows.word.bind fun length => last _).zero
    · exact (Follows.word.bind fun length =>
        (local_characters length).bind fun part => (ih (text ++ part)).zero).zero
    · exact Follows.throw 0 _ _

theorem local_readString : Local 1 readString :=
  Follows.get_remaining fun fuel => follows_readStringWithin fuel ""

theorem local_readInt : Local 1 readInt := by
  apply Follows.byte.bind
  intro b
  split
  · exact Follows.pure _
  · exact (Follows.byte.bind fun _ => Follows.pure _).zero
  · exact (Follows.word.bind fun _ => Follows.pure _).zero
  · exact (Follows.word.bind fun _ => (Follows.word.bind fun _ => Follows.pure _).zero).zero
  · exact Follows.throw 0 _ _

theorem local_readLength : Local 1 readLength := by
  apply local_readInt.bind
  intro length
  cases length with
  | ofNat length => exact Follows.pure length
  | negSucc length => exact Follows.throw 0 _ _

theorem local_skipType : Local 1 skipType := by
  apply Follows.peek_bind
  intro b
  apply Follows.ite
  · exact local_readString.discard
  · exact local_readInt.discard

theorem follows_skipBinaryWithin (fuel : Nat) (b : UInt8) :
    Follows 1 (skipBinaryWithin fuel b) fun budget => skipBinaryWithin budget b := by
  induction fuel generalizing b with
  | zero => exact Follows.throw 1 .endOfData _
  | succ fuel ih =>
    apply Follows.succ
    apply Follows.word.bind_succ
    intro size
    apply (Follows.skip size).zero.bind
    intro _
    apply Follows.ite
    · exact Follows.pure ()
    · apply Follows.byte.zero.bind
      intro next
      split
      · exact (ih next).zero
      · exact (ih next).zero
      · exact Follows.throw 0 _ _

theorem local_defineClass (fields : Nat) : Local 0 (defineClass fields) := by
  intro position classes bytes a c success
  cases success
  exact ⟨[], classes.push fields, bytes, rfl, rfl, Nat.le_refl 0, fun _ _ _ => rfl⟩

theorem local_skipFields (number : Nat) {field : Read Unit} (each : Local 0 field) :
    Local 0 (skipFields number field) := by
  intro position classes bytes a c success
  cases known : classes[number]? with
  | none =>
    have known' : (Cursor.of position classes bytes).classes[number]? = none := known
    rw [skipFields, bind_get, known'] at success
    cases success
  | some fields =>
    have same : ∀ rest, skipFields number field (.of position classes rest) =
        times fields field (.of position classes rest) := by
      intro rest
      have known' : (Cursor.of position classes rest).classes[number]? = some fields := known
      rw [skipFields, bind_get, known']
    rw [same] at success
    obtain ⟨used, classes', rest, split, moved, enough, takes⟩ := each.times fields success
    refine ⟨used, classes', rest, split, moved, enough, ?_⟩
    intro budget fits more
    exact (same _).trans (takes budget fits more)

/-- Stepping over what follows a tag is local where stepping over a nested value is. -/
theorem local_skipBody {inner : Read Unit} (each : Local 1 inner) (b : UInt8) :
    Local 0 (skipBody inner b) := by
  have counted : Local 0 (do times (← readLength) inner) :=
    (local_readLength.bind fun length => each.zero.times length).zero
  have parts : Local 0 (do skipBinaryWithin ((← get).remaining + 1) b) :=
    Follows.get_remaining fun fuel => (follows_skipBinaryWithin (fuel + 1) b).zero.more
  rw [skipBody]
  cases Tag.ofByte b with
  | null => exact Follows.pure ()
  | boolean => exact Follows.pure ()
  | scalar width => exact (Follows.skip width).zero
  | shortBinary length => exact (Follows.skip length).zero
  | mediumBinary high => exact (Follows.byte.bind fun _ => (Follows.skip _).zero).zero
  | binary => exact parts
  | binaryChunk => exact parts
  | typedList => exact (local_skipType.bind fun _ => each.untilEnd.zero).zero
  | typedFixedList => exact (local_skipType.bind fun _ => counted).zero
  | list => exact each.untilEnd.zero
  | fixedList => exact counted
  | shortTypedList length => exact (local_skipType.bind fun _ => each.zero.times length).zero
  | shortList length => exact each.zero.times length
  | map => exact each.untilEnd.zero
  | typedMap => exact (local_skipType.bind fun _ => each.untilEnd.zero).zero
  | classDefinition =>
    apply Follows.zero
    apply local_readString.discard.bind
    intro _
    apply local_readLength.zero.bind
    intro fields
    apply (local_readString.discard.zero.times fields).bind
    intro _
    apply (local_defineClass fields).bind
    intro _
    exact each.zero
  | object => exact (local_readLength.bind fun number => local_skipFields number each.zero).zero
  | shortObject number => exact local_skipFields number each.zero
  | reference => exact local_readInt.discard.zero
  | _ => exact Follows.throw 0 _ _

theorem local_skipWithin (room : Nat) : Local 1 (skipWithin room) := by
  -- on the levels left: what is nested has one less
  induction room with
  | zero => exact Follows.throw 1 .tooDeep _
  | succ room ih =>
    apply Follows.peek_bind
    intro b
    apply Follows.ite
    · exact local_readString.discard
    · apply Follows.ite
      · exact local_readInt.discard
      · exact Follows.byte.bind fun b => local_skipBody ih b

theorem local_skipValue : Local 1 skipValue := local_skipWithin (maxDepth + 1)

end RpcClient.Hessian
