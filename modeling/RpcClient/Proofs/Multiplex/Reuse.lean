import Mathlib.Data.List.Induction
import RpcClient.Proofs.Multiplex.Correlation

/-! Runs that give numbers again. A call whose number no other call under way has keeps its place in the
table. -/
namespace RpcClient.Multiplex

/-- No other call over the shared connection is under way with the number of call `n`. -/
def Ledger.Alone (l : Ledger) (n : Nat) : Prop :=
  ∀ {m call other}, l.calls[n]? = some call → l.calls[m]? = some other →
    other.requestId = call.requestId → other.phase.isEnded = false → other.phase.isDirect = false → m = n

variable {l l' : Ledger} {request : Option Request} {handed : Option (Nat × Frame)} {n : Nat} {call : Call}

/-- The call has its place in the table as long as it waits. -/
structure Ledger.Seated (l : Ledger) (n : Nat) : Prop where
  present : ∀ {call}, l.calls[n]? = some call → call.Waits → (call.requestId, n) ∈ l.pending
  kept : ∀ {call}, l.calls[n]? = some call → call.mailbox ≠ .abandoned

namespace Ledger.Seated

/-- A change of another call, which takes no other entries off the table than those of its own. -/
theorem modify {m : Nat} {f : Call → Call} {pending : List (UInt64 × Nat)}
    (seated : l.Seated n) (away : m ≠ n)
    (keeps : ∀ {call}, l.calls[n]? = some call → (call.requestId, n) ∈ l.pending →
      (call.requestId, n) ∈ pending) :
    Ledger.Seated { l with calls := l.calls.modify m f, pending } n := by
  have same : (l.calls.modify m f)[n]? = l.calls[n]? := List.getElem?_modify_ne f _ away
  refine ⟨fun found waits => ?_, fun found => seated.kept (same.symm.trans found)⟩
  have found := same.symm.trans found
  exact keeps found (seated.present found waits)

/-- The call itself changes. -/
theorem modify_self {f : Call → Call} {pending : List (UInt64 × Nat)}
    (found : l.calls[n]? = some call)
    (present : (f call).Waits → ((f call).requestId, n) ∈ pending)
    (kept : (f call).mailbox ≠ .abandoned) :
    Ledger.Seated { l with calls := l.calls.modify n f, pending } n := by
  have here : (l.calls.modify n f)[n]? = some (f call) := by
    rw [getElem?_modify_of_eq_some found, if_pos rfl]
  refine ⟨fun found' waits => ?_, fun found' => ?_⟩
  · obtain rfl := Option.some.inj (here.symm.trans found')
    exact present waits
  · obtain rfl := Option.some.inj (here.symm.trans found')
    exact kept

theorem append {new : Call} {lastId : UInt32} (seated : l.Seated n)
    (idle : ¬ new.Waits) (empty : new.mailbox = .empty) :
    Ledger.Seated { l with lastId, calls := l.calls ++ [new] } n := by
  refine ⟨fun found waits => ?_, fun found => ?_⟩
  · rw [getElem?_concat] at found
    split at found
    · obtain rfl := Option.some.inj found
      exact (idle waits).elim
    · exact seated.present found waits
  · rw [getElem?_concat] at found
    split at found
    · obtain rfl := Option.some.inj found
      rw [empty]
      exact Mailbox.noConfusion
    · exact seated.kept found

theorem turn (seated : l.Seated n) (listed : Listed l) (alone : l.Alone n) (alone' : l'.Alone n)
    (turn : Turn l request handed l') : l'.Seated n := by
  cases turn with
  | rest => exact seated
  | refuse =>
    refine seated.append ?_ rfl
    rintro ⟨live, _⟩
    cases live
  | bypass =>
    refine seated.append ?_ rfl
    rintro ⟨_, shared, _⟩
    cases shared
  | @register request id wire next encoded shared =>
    -- a call under way that had the number would not be alone
    have old : ∀ {call : Call}, ((l.displaced id.toUInt64) ++
        [{ requestId := id.toUInt64, wire, phase := .seeking }])[n]? = some call →
        n ≠ (l.displaced id.toUInt64).length → l.calls[n]? = some call ∧ call.requestId ≠ id.toUInt64 := by
      intro call found older
      have newer : call.requestId ≠ id.toUInt64 := by
        intro same
        have last : ((l.displaced id.toUInt64) ++
            [{ requestId := id.toUInt64, wire, phase := .seeking }])[(l.displaced id.toUInt64).length]? =
            some { requestId := id.toUInt64, wire, phase := .seeking } := List.getElem?_concat_length
        exact older (alone' found last same.symm rfl rfl).symm
      rw [getElem?_concat, if_neg older] at found
      obtain same | ⟨before, place, present, rfl⟩ := listed.of_displaced found
      · exact ⟨same, newer⟩
      · exact (newer (listed.waits_of_found present place).1).elim
    refine ⟨fun {call} found waits => ?_, fun {call} found => ?_⟩
    · by_cases last : n = (l.displaced id.toUInt64).length
      · rw [getElem?_concat, if_pos last] at found
        obtain rfl := Option.some.inj found
        rw [last, length_displaced]
        exact List.mem_cons_self
      · obtain ⟨found, other⟩ := old found last
        exact List.mem_cons_of_mem _
          (List.mem_filter.mpr ⟨seated.present found waits, bne_iff_ne.mpr other⟩)
    · by_cases last : n = (l.displaced id.toUInt64).length
      · rw [getElem?_concat, if_pos last] at found
        obtain rfl := Option.some.inj found
        exact Mailbox.noConfusion
      · exact seated.kept (old found last).1
  | @advance m other f found live next same number wire mailbox =>
    by_cases here : m = n
    · subst here
      refine modify_self found (fun waits => ?_) (mailbox ▸ seated.kept found)
      rw [number]
      exact seated.present found ⟨live, same.symm.trans waits.2.1, mailbox.symm.trans waits.2.2⟩
    · exact seated.modify here fun _ present => present
  | @finish m other phase found live ends earned =>
    by_cases here : m = n
    · subst here
      refine modify_self found (fun waits => ?_) (show other.mailbox ≠ _ from seated.kept found)
      rw [show phase.isEnded = false from waits.1] at ends
      cases ends
    · refine seated.modify here fun {call} found' present => ?_
      split
      · exact present
      · next shared =>
        refine List.mem_filter.mpr ⟨present, bne_iff_ne.mpr fun same => here ?_⟩
        exact alone found' found same.symm live (Bool.eq_false_iff.mpr shared)
  | @hand m frame response waiter =>
    have served := listed.lookup.mp waiter
    obtain ⟨other, found, number, _⟩ := listed.waits served
    by_cases here : m = n
    · subst here
      refine modify_self found (fun waits => ?_) Mailbox.noConfusion
      cases waits.2.2
    · refine seated.modify here fun {call} found' present => ?_
      refine List.mem_filter.mpr ⟨present, bne_iff_ne.mpr fun same => here ?_⟩
      rw [show call.requestId = frame.requestId from same] at present
      exact Option.some.inj (waiter.symm.trans (listed.lookup.mpr present))

end Ledger.Seated

namespace History

variable {codec : Codec} {events : List Event}

theorem listed_ofRun (codec : Codec) (events : List Event) :
    Listed (ofRun codec events).channel.ledger :=
  ofRun_invariant (P := fun h => Listed h.channel.ledger) ⟨nofun, List.nodup_nil⟩
    (fun h event listed => listed.turn (h.channel.step_turn event)) events

theorem logged_ofRun (codec : Codec) (events : List Event) :
    Logged (ofRun codec events).channel.ledger (ofRun codec events).handed := by
  have both : Listed (ofRun codec events).channel.ledger ∧
      Logged (ofRun codec events).channel.ledger (ofRun codec events).handed := ofRun_invariant
    (P := fun h => Listed h.channel.ledger ∧ Logged h.channel.ledger h.handed)
    ⟨⟨nofun, List.nodup_nil⟩, ⟨by simp [Channel.ledger, Channel.new, Ledger.mail?], nofun, List.nodup_nil⟩⟩
    (fun h event kept =>
      ⟨kept.1.turn (h.channel.step_turn event), kept.2.turn kept.1 (h.channel.step_turn event)⟩)
    events
  exact both.2

/-- Through the whole run no other call over the shared connection is under way with the number of call
`n`. -/
def Sole (codec : Codec) (events : List Event) (n : Nat) : Prop :=
  ∀ before, before <+: events → (ofRun codec before).channel.ledger.Alone n

theorem Sole.of_prefix {before : List Event} {n : Nat} (sole : Sole codec events n)
    (earlier : before <+: events) : Sole codec before n :=
  fun front initial => sole front (initial.trans earlier)

theorem Sole.seated {n : Nat} (sole : Sole codec events n) :
    (ofRun codec events).channel.ledger.Seated n := by
  induction events using List.reverseRecOn with
  | nil => exact ⟨nofun, nofun⟩
  | append_singleton events event ih =>
    have earlier : events <+: events ++ [event] := List.prefix_append _ _
    have before := ih (sole.of_prefix earlier)
    have after : (ofRun codec (events ++ [event])).channel.ledger.Alone n :=
      sole _ (List.prefix_refl _)
    rw [ofRun_concat] at after ⊢
    exact before.turn (listed_ofRun codec events) (sole _ earlier) after
      ((ofRun codec events).channel.step_turn event)

/-- In a run with fewer calls than there are numbers every call is alone with its number. -/
theorem sole_of_few (few : (ofRun codec events).requests.length < UInt32.size) (n : Nat) :
    Sole codec events n := by
  intro before earlier m call other found found' same _ _
  obtain ⟨after, rfl⟩ := earlier
  have fewer : (ofRun codec before).requests.length < UInt32.size := by
    rw [requests_ofRun] at few ⊢
    rw [List.filterMap_append, List.length_append] at few
    omega
  exact (faithful_ofRun fewer).orderly.unique found' found same

end History
end RpcClient.Multiplex
