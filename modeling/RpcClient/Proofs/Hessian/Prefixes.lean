import RpcClient.Proofs.Hessian.Agreement
import RpcClient.Proofs.Hessian.Checked

/-! The bytes that a call takes fix all that it does: no byte behind them counts, and none of them can be missing.
So what was read keeps its meaning when other data are put behind it, and data that break off are never mistaken for
whole ones. -/
namespace RpcClient.Hessian

variable {α : Type} {m : Read α} {position least fuel : Nat} {classes classes' : Array Nat} {used front : Bytes} {a : α}

/-- An action fails on the front of what it takes: what it would take there, it would take of the whole as well. -/
theorem Local.fails_on_front (reads : Local least m) (takes : Takes m position classes used a classes')
    (isFront : front <+: used) (cut : front ≠ used) : ∃ flaw c, m (.of position classes front) = .error flaw c := by
  cases result : m (.of position classes front) with
  | error flaw c => exact ⟨flaw, c, rfl⟩
  | ok b c =>
    obtain ⟨used', classes'', rest, rfl, -, -, takes'⟩ := reads.takes result
    obtain ⟨missing, rfl⟩ := isFront
    have whole := takes []
    rw [List.append_nil, List.append_assoc, takes'] at whole
    injection whole with _ same
    have left : rest ++ missing = [] := congrArg Cursor.rest same
    rw [(List.append_eq_nil_iff.mp left).2, List.append_nil] at cut
    exact absurd rfl cut

/-! ### Maps -/

theorem readStringOrSkip_of_skipped {c d e : Cursor} {flaw : Flaw} (read : readString c = .error flaw d)
    (skipped : skipValue c = .ok () e) : readStringOrSkip c = .ok none e := by
  rw [readStringOrSkip, read]
  exact bind_of_ok skipped

/-- What is stepped over because it cannot be read as a string cannot be read as one in front of other data either. -/
theorem local_readStringOrSkip : Local 1 readStringOrSkip := by
  intro position classes bytes value c success
  cases read : readString (.of position classes bytes) with
  | ok text d =>
    rw [readStringOrSkip, read] at success
    cases success
    obtain ⟨used, classes', rest, split, moved, enough, takes⟩ := local_readString.takes read
    refine ⟨used, classes', rest, split, moved, enough, ?_⟩
    intro _ _ more
    change readStringOrSkip _ = _
    rw [readStringOrSkip, takes more]
  | error flaw d =>
    rw [readStringOrSkip, read] at success
    obtain ⟨_, d, skipped, success⟩ := bind_eq_ok success
    cases success
    obtain ⟨used, classes', rest, rfl, moved, enough, takes⟩ := local_skipValue.takes skipped
    refine ⟨used, classes', rest, rfl, moved, enough, ?_⟩
    intro _ _ more
    cases read' : readString (.of position classes (used ++ more)) with
    | error flaw' d' => exact readStringOrSkip_of_skipped read' (takes more)
    | ok text d' =>
      -- a string is stepped over by reading it, so that it would be the bytes that were stepped over here
      cases (skipWithin_of_readString read' maxDepth).symm.trans (takes more)
      obtain ⟨used', _, rest', split, moved', -, takes'⟩ := local_readString.takes read'
      have same : used = used' := by
        have length := congrArg Cursor.position moved'
        exact List.append_inj_left split (by simpa [Cursor.of] using length)
      rw [same, takes' rest] at read
      cases read

theorem follows_readEntriesWithin (fuel : Nat) (entries : List (String × String)) :
    Follows 1 (readEntriesWithin fuel entries) fun budget => readEntriesWithin budget entries := by
  induction fuel generalizing entries with
  | zero => exact Follows.throw 1 .endOfData _
  | succ fuel ih =>
    apply Follows.succ
    apply Follows.peek_bind
    intro b
    apply Follows.ite
    · exact Follows.byte.discard.bind fun _ => Follows.pure entries.reverse
    · apply local_readStringOrSkip.bind_succ
      intro key
      apply local_readStringOrSkip.zero.bind
      intro value
      split
      · exact (ih _).zero
      · exact (ih _).zero

theorem local_readStringMap : Local 1 readStringMap := by
  have entries : Local 0 (do readEntriesWithin (← get).remaining []) :=
    (Follows.get_remaining fun fuel => follows_readEntriesWithin fuel []).zero
  apply Follows.byte.bind
  intro b
  split
  · exact entries
  · exact (local_skipType.bind fun _ => entries).zero
  · exact Follows.throw 0 _ _

/-! ### Calls -/

theorem local_read (call : Call) : Local 1 call.read := by
  cases call with
  | string => exact local_readString.bind fun text => Follows.pure (Answer.string text)
  | int => exact local_readInt.bind fun number => Follows.pure (Answer.int number)
  | map => exact local_readStringMap.bind fun entries => Follows.pure (Answer.map entries)
  | value => exact local_skipValue.bind fun _ => Follows.pure Answer.skipped

variable {call : Call} {data : Bytes} {p : Place} {answer : Answer} {c : Cursor}

/-- From any place of any data: a call that succeeds has the same answer, and ends at the same place with the same
classes, on all data that agree up to its end; and it fails on all that break off before. -/
theorem calls_are_prefix_free (success : call.read (p.cursor data) = .ok answer c) :
    ∃ q : Place, c = q.cursor data ∧ p.position < q.position ∧ q.position ≤ data.length ∧
      (∀ other, data.take q.position <+: other → call.read (p.cursor other) = .ok answer (q.cursor other)) ∧
      ∀ size, size < q.position → ∃ flaw d, call.read (p.cursor (data.take size)) = .error flaw d := by
  obtain ⟨used, classes, rest, split, rfl, enough, takes⟩ := (local_read call).takes success
  have inside : p.position + used.length ≤ data.length := by
    have length := congrArg List.length split
    rw [List.length_drop, List.length_append] at length
    omega
  have taken : (data.take (p.position + used.length)).drop p.position = used := by
    rw [List.drop_take, split, Nat.add_sub_cancel_left, List.take_left]
  have behind : data.drop (p.position + used.length) = rest := by
    rw [← List.drop_drop, split, List.drop_left]
  refine ⟨⟨p.position + used.length, classes⟩, ?_, ?_, inside, ?_, ?_⟩
  · rw [Place.cursor, behind]
  · dsimp only
    omega
  · rintro other ⟨more, rfl⟩
    have length := List.length_take_of_le inside
    have starts : p.position ≤ (data.take (p.position + used.length)).length := by
      rw [length]
      exact Nat.le_add_right _ _
    dsimp only [Place.cursor]
    rw [List.drop_append_of_le_length starts, taken, takes more, List.drop_left' length]
  · intro size short
    change size < p.position + used.length at short
    apply (local_read call).fails_on_front takes
    · rw [← taken]
      exact (List.take_prefix_take_left (Nat.le_of_lt short)).drop p.position
    · intro whole
      have length := congrArg List.length whole
      rw [List.length_drop, List.length_take] at length
      omega

/-- A map behind three bytes and in front of one. -/
def framedMap : Bytes := [0x01, 0x02, 0x03] ++ mixedMap ++ [0x4e]

theorem framedMap_prefix_free :
    Call.map.read (Place.cursor ⟨3, #[2]⟩ framedMap) =
      .ok (.map [("ab", "c")]) (Place.cursor ⟨31, #[2, 1]⟩ framedMap) ∧
    (∀ rest, Call.map.read (Place.cursor ⟨3, #[2]⟩ (framedMap.take 31 ++ rest)) =
      .ok (.map [("ab", "c")]) (Place.cursor ⟨31, #[2, 1]⟩ (framedMap.take 31 ++ rest))) ∧
    ∃ flaw d, Call.map.read (Place.cursor ⟨3, #[2]⟩ (framedMap.take 30)) = .error flaw d := by
  have read : Call.map.read (Place.cursor ⟨3, #[2]⟩ framedMap) =
      .ok (.map [("ab", "c")]) (Place.cursor ⟨31, #[2, 1]⟩ framedMap) := by cbv
  obtain ⟨⟨position, classes⟩, ended, -, -, fixed, short⟩ := calls_are_prefix_free read
  obtain rfl : 31 = position := congrArg Cursor.position ended
  obtain rfl : #[2, 1] = classes := congrArg Cursor.classes ended
  exact ⟨read, fun rest => fixed _ (List.prefix_append _ rest), short 30 (by decide)⟩

end RpcClient.Hessian
