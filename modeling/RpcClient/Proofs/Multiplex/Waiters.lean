import RpcClient.Proofs.Multiplex.History

/-! The table of the waiters of a channel. It holds only calls that were registered and neither have ended
nor were handed a response, and all of them as long as no number is given twice. -/
namespace RpcClient.Multiplex

/-- Whether the call waits under its number: it was registered, and it has neither ended nor been
handed a response. -/
def Call.Waits (call : Call) : Prop :=
  call.phase.isEnded = false ∧ call.phase.isDirect = false ∧ call.mailbox = .empty

/-- The table holds only calls that wait, each under its number, and no number twice. -/
structure Listed (l : Ledger) : Prop where
  waits : ∀ {id n}, (id, n) ∈ l.pending → ∃ call, l.calls[n]? = some call ∧ call.requestId = id ∧ call.Waits
  nodup : (l.pending.map Prod.fst).Nodup

/-- Calls are numbered from one on, and the table holds the calls that wait, each under its number. -/
structure Orderly (l : Ledger) : Prop where
  lastId : l.lastId.toNat = l.calls.length
  requestId : ∀ {n call}, l.calls[n]? = some call → call.requestId.toNat = n + 1
  mem_pending : ∀ {id n}, (id, n) ∈ l.pending ↔
    ∃ call, l.calls[n]? = some call ∧ call.requestId = id ∧ call.Waits
  nodup : (l.pending.map Prod.fst).Nodup

theorem toNat_nextId {last : UInt32} (few : last.toNat + 1 < UInt32.size) :
    (Channel.nextId last).toNat = last.toNat + 1 := by
  have sum : (last + 1).toNat = last.toNat + 1 := by
    rw [UInt32.toNat_add]
    exact Nat.mod_eq_of_lt few
  have positive : ¬ last + 1 = 0 := by
    intro zero
    rw [zero] at sum
    cases sum
  rw [Channel.nextId, if_neg positive, sum]

theorem lookup_eq_some_iff_mem {pending : List (UInt64 × Nat)} (nodup : (pending.map Prod.fst).Nodup)
    {id : UInt64} {n : Nat} : pending.lookup id = some n ↔ (id, n) ∈ pending := by
  induction pending with
  | nil => simp
  | cons entry rest ih =>
    obtain ⟨key, m⟩ := entry
    rw [List.map_cons, List.nodup_cons] at nodup
    rw [List.lookup_cons, List.mem_cons, ← ih nodup.2]
    by_cases same : id = key
    · subst same
      have absent : rest.lookup id ≠ some n := by
        intro found
        exact nodup.1 (List.mem_map.mpr ⟨(id, n), (ih nodup.2).mp found, rfl⟩)
      simp [absent, eq_comm]
    · have differs : (id == key) = false := beq_eq_false_iff_ne.mpr same
      simp [same, differs]

theorem length_displaced (l : Ledger) (id : UInt64) : (l.displaced id).length = l.calls.length := by
  rw [Ledger.displaced]
  split
  · rfl
  · exact List.length_modify _ _ _

namespace Listed

variable {l l' : Ledger} {request : Option Request} {handed : Option (Nat × Frame)} {n : Nat} {call : Call}

theorem lookup (listed : Listed l) {id : UInt64} :
    l.pending.lookup id = some n ↔ (id, n) ∈ l.pending :=
  lookup_eq_some_iff_mem listed.nodup

theorem nodup_filter (listed : Listed l) (p : UInt64 × Nat → Bool) :
    ((l.pending.filter p).map Prod.fst).Nodup :=
  (List.Sublist.map Prod.fst List.filter_sublist).nodup listed.nodup

theorem waits_of_found (listed : Listed l) {id : UInt64} (present : (id, n) ∈ l.pending)
    (found : l.calls[n]? = some call) : call.requestId = id ∧ call.Waits := by
  obtain ⟨other, found', own⟩ := listed.waits present
  obtain rfl := Option.some.inj (found.symm.trans found')
  exact own

/-- Only the waiter under a number loses its place to a new call. -/
theorem getElem?_displaced_of_ne (listed : Listed l) {id id' : UInt64} (present : (id', n) ∈ l.pending)
    (other : id' ≠ id) (found : l.calls[n]? = some call) : (l.displaced id)[n]? = some call := by
  rw [Ledger.displaced]
  split
  · exact found
  · next m waiter =>
    have away : m ≠ n := by
      rintro rfl
      have number := (listed.waits_of_found present found).1
      have number' := (listed.waits_of_found (listed.lookup.mp waiter) found).1
      exact other (number.symm.trans number')
    rw [List.getElem?_modify_ne _ _ away]
    exact found

/-- The call that loses its place waited under the number. -/
theorem of_displaced (listed : Listed l) {id : UInt64} (found : (l.displaced id)[n]? = some call) :
    l.calls[n]? = some call ∨ ∃ old, l.calls[n]? = some old ∧ (id, n) ∈ l.pending ∧
      call = { old with mailbox := .abandoned } := by
  rw [Ledger.displaced] at found
  split at found
  · exact .inl found
  · next m waiter =>
    obtain ⟨old, before, rfl⟩ := exists_of_getElem?_modify found
    split
    · next here =>
      subst here
      exact .inr ⟨old, before, listed.lookup.mp waiter, rfl⟩
    · exact .inl before

/-- A change of one call, which leaves the table unless it goes on waiting. -/
theorem modify {f : Call → Call} {pending : List (UInt64 × Nat)} (listed : Listed l)
    (found : l.calls[n]? = some call) (sublist : pending.Sublist l.pending)
    (keeps : ∀ {id}, (id, n) ∈ pending → (f call).requestId = id ∧ (f call).Waits) :
    Listed { l with calls := l.calls.modify n f, pending } := by
  refine ⟨fun {id m} present => ?_, (sublist.map Prod.fst).nodup listed.nodup⟩
  rw [getElem?_modify_of_eq_some found]
  split
  · next here =>
    subst here
    exact ⟨f call, rfl, keeps present⟩
  · exact listed.waits (sublist.subset present)

theorem append {calls : List Call} {pending : List (UInt64 × Nat)} {lastId : UInt32}
    (waits : ∀ {id n}, (id, n) ∈ pending →
      ∃ call, calls[n]? = some call ∧ call.requestId = id ∧ call.Waits)
    (nodup : (pending.map Prod.fst).Nodup) (new : Call) :
    Listed { l with lastId, calls := calls ++ [new], pending } := by
  refine ⟨fun {id m} present => ?_, nodup⟩
  obtain ⟨call, found, own⟩ := waits present
  exact ⟨call, (List.getElem?_append_left (List.getElem?_eq_some_iff.mp found).1).trans found, own⟩

theorem turn (listed : Listed l) (turn : Turn l request handed l') : Listed l' := by
  cases turn with
  | rest => exact listed
  | refuse => exact append listed.waits listed.nodup _
  | bypass => exact append listed.waits listed.nodup _
  | @register request id wire next encoded shared =>
    refine ⟨fun {key m} present => ?_, ?_⟩
    · obtain new | old := List.mem_cons.mp present
      · obtain ⟨rfl, rfl⟩ := Prod.mk.inj new
        refine ⟨{ requestId := id.toUInt64, wire, phase := .seeking }, ?_, rfl, rfl, rfl, rfl⟩
        rw [getElem?_concat, if_pos (length_displaced l _).symm]
      · obtain ⟨before, other⟩ := List.mem_filter.mp old
        obtain ⟨call, found, own⟩ := listed.waits before
        have kept := listed.getElem?_displaced_of_ne before (bne_iff_ne.mp other) found
        exact ⟨call, (List.getElem?_append_left (List.getElem?_eq_some_iff.mp kept).1).trans kept, own⟩
    · rw [List.map_cons, List.nodup_cons]
      refine ⟨fun taken => ?_, listed.nodup_filter _⟩
      obtain ⟨entry, present, same⟩ := List.mem_map.mp taken
      exact bne_iff_ne.mp (List.mem_filter.mp present).2 same
  | @advance n call f found live next same number wire mailbox =>
    refine listed.modify found (.refl _) fun present => ?_
    obtain ⟨own, _, shared, empty⟩ := listed.waits_of_found present found
    exact ⟨number.trans own, next, same.trans shared, mailbox.trans empty⟩
  | @finish n call phase found live ends earned =>
    split
    · next direct =>
      refine listed.modify found (.refl _) fun present => ?_
      obtain ⟨_, _, shared, _⟩ := listed.waits_of_found present found
      rw [direct] at shared
      cases shared
    · refine listed.modify found List.filter_sublist fun present => ?_
      obtain ⟨before, other⟩ := List.mem_filter.mp present
      exact (bne_iff_ne.mp other (listed.waits_of_found before found).1.symm).elim
  | @hand n frame response waiter =>
    have served := listed.lookup.mp waiter
    obtain ⟨call, found, number, _⟩ := listed.waits served
    refine listed.modify found List.filter_sublist fun present => ?_
    obtain ⟨before, other⟩ := List.mem_filter.mp present
    have own := (listed.waits_of_found before found).1
    exact (bne_iff_ne.mp other (own.symm.trans number)).elim

end Listed

namespace Orderly

variable {l l' : Ledger} {n m : Nat} {call : Call}

theorem listed (orderly : Orderly l) : Listed l :=
  ⟨orderly.mem_pending.mp, orderly.nodup⟩

theorem unique {other : Call} (orderly : Orderly l) (found : l.calls[n]? = some call)
    (found' : l.calls[m]? = some other) (same : call.requestId = other.requestId) : n = m := by
  have first := orderly.requestId found
  have second := orderly.requestId found'
  rw [same] at first
  omega

/-- No two calls have the same number. -/
theorem nodup_requestId (orderly : Orderly l) : (l.calls.map Call.requestId).Nodup := by
  rw [List.Nodup, List.pairwise_map, List.pairwise_iff_getElem]
  intro n m bound bound' before same
  have here := orderly.unique (List.getElem?_eq_getElem bound) (List.getElem?_eq_getElem bound') same
  omega

/-- A new call, with its waiter if it waits. -/
theorem append {id : UInt32} {pending : List (UInt64 × Nat)} (orderly : Orderly l)
    (few : l.calls.length + 1 < UInt32.size) (next : id = Channel.nextId l.lastId)
    (number : call.requestId = id.toUInt64)
    (pending_iff : ∀ {id m}, (id, m) ∈ pending ↔
      (id, m) ∈ l.pending ∨ m = l.calls.length ∧ id = call.requestId ∧ call.Waits)
    (nodup : (pending.map Prod.fst).Nodup) :
    Orderly { l with lastId := id, calls := l.calls ++ [call], pending } := by
  have last : id.toNat = l.calls.length + 1 := by
    rw [next, toNat_nextId (by rw [orderly.lastId]; exact few), orderly.lastId]
  refine ⟨?_, ?_, ?_, nodup⟩
  · simpa using last
  · intro m other found
    rw [getElem?_concat] at found
    split at found
    · next here =>
      obtain rfl := Option.some.inj found
      rw [number, UInt32.toNat_toUInt64, last, here]
    · exact orderly.requestId found
  · intro key m
    rw [pending_iff, orderly.mem_pending]
    constructor
    · rintro (⟨other, found, rfl, waits⟩ | ⟨rfl, rfl, waits⟩)
      · obtain ⟨bound, _⟩ := List.getElem?_eq_some_iff.mp found
        exact ⟨other, by rw [List.getElem?_append_left bound]; exact found, rfl, waits⟩
      · exact ⟨call, List.getElem?_concat_length, rfl, waits⟩
    · rintro ⟨other, found, rfl, waits⟩
      rw [getElem?_concat] at found
      split at found
      · next here =>
        obtain rfl := Option.some.inj found
        exact .inr ⟨here, rfl, waits⟩
      · exact .inl ⟨other, found, rfl, waits⟩

/-- A change of one call, with its waiter as long as it waits. -/
theorem modify {f : Call → Call} {pending : List (UInt64 × Nat)} (orderly : Orderly l)
    (found : l.calls[n]? = some call) (number : (f call).requestId = call.requestId)
    (pending_iff : ∀ {id m}, (id, m) ∈ pending ↔
      (id, m) ∈ l.pending ∧ m ≠ n ∨ m = n ∧ id = call.requestId ∧ (f call).Waits)
    (nodup : (pending.map Prod.fst).Nodup) :
    Orderly { l with calls := l.calls.modify n f, pending } := by
  have calls : ∀ m, (l.calls.modify n f)[m]? = if n = m then some (f call) else l.calls[m]? :=
    getElem?_modify_of_eq_some found f
  refine ⟨?_, ?_, ?_, nodup⟩
  · simpa using orderly.lastId
  · intro m other found'
    rw [calls] at found'
    split at found'
    · next here =>
      obtain rfl := Option.some.inj found'
      rw [number, orderly.requestId found, here]
    · exact orderly.requestId found'
  · intro id m
    rw [pending_iff, calls]
    split
    · next here =>
      subst here
      constructor
      · rintro (⟨_, absurd⟩ | ⟨_, rfl, waits⟩)
        · exact (absurd rfl).elim
        · exact ⟨f call, rfl, number, waits⟩
      · rintro ⟨other, changed, rfl, waits⟩
        obtain rfl := Option.some.inj changed
        exact .inr ⟨rfl, number, waits⟩
    · next other =>
      rw [orderly.mem_pending]
      simp [Ne.symm other]

theorem mem_pending_iff (orderly : Orderly l) (found : l.calls[n]? = some call) {id : UInt64} :
    (id, n) ∈ l.pending ↔ id = call.requestId ∧ call.Waits := by
  rw [orderly.mem_pending]
  constructor
  · rintro ⟨other, found', rfl, waits⟩
    obtain rfl := Option.some.inj (found.symm.trans found')
    exact ⟨rfl, waits⟩
  · rintro ⟨rfl, waits⟩
    exact ⟨call, found, rfl, waits⟩

/-- Without the entries under one number, no entries of other calls are lost. -/
theorem mem_filter (orderly : Orderly l) (found : l.calls[n]? = some call) {id : UInt64} :
    (id, m) ∈ l.pending.filter (·.1 != call.requestId) ↔ (id, m) ∈ l.pending ∧ m ≠ n := by
  rw [List.mem_filter, bne_iff_ne]
  refine and_congr_right fun entry => not_congr ?_
  obtain ⟨other, found', rfl, _⟩ := orderly.mem_pending.mp entry
  constructor
  · exact orderly.unique found' found
  · rintro rfl
    rw [Option.some.inj (found'.symm.trans found)]

/-- No waiter has a number that was not given yet. -/
theorem fresh (orderly : Orderly l) {id : UInt64} (next : id.toNat = l.calls.length + 1)
    {entry : UInt64 × Nat} (present : entry ∈ l.pending) : entry.1 ≠ id := by
  obtain ⟨key, m⟩ := entry
  intro same
  obtain ⟨call, found, rfl, _⟩ := orderly.mem_pending.mp present
  obtain ⟨bound, _⟩ := List.getElem?_eq_some_iff.mp found
  have given := orderly.requestId found
  rw [show call.requestId = id from same] at given
  omega

theorem displaced_fresh (orderly : Orderly l) {id : UInt64}
    (next : id.toNat = l.calls.length + 1) : l.displaced id = l.calls := by
  have none : l.pending.lookup id = none := by
    rw [List.lookup_eq_none_iff]
    intro entry present
    exact bne_iff_ne.mpr (Ne.symm (orderly.fresh next present))
  rw [Ledger.displaced, none]

theorem filter_fresh (orderly : Orderly l) {id : UInt64} (next : id.toNat = l.calls.length + 1) :
    l.pending.filter (·.1 != id) = l.pending := by
  rw [List.filter_eq_self]
  intro entry present
  exact bne_iff_ne.mpr (orderly.fresh next present)

theorem next_requestId {id : UInt32} (orderly : Orderly l) (next : id = Channel.nextId l.lastId)
    (few : l.calls.length + 1 < UInt32.size) : id.toUInt64.toNat = l.calls.length + 1 := by
  rw [UInt32.toNat_toUInt64, next, toNat_nextId (by rw [orderly.lastId]; exact few),
    orderly.lastId]

/-- Turns keep calls and waiters in order while there are numbers to give. -/
theorem turn {request : Option Request} {handed : Option (Nat × Frame)} (orderly : Orderly l)
    (turn : Turn l request handed l') (few : l'.calls.length < UInt32.size) : Orderly l' := by
  have nodup := (orderly.listed.turn turn).nodup
  cases turn with
  | rest => exact orderly
  | refuse next refused =>
    refine orderly.append (by simpa using few) next rfl ?_ nodup
    intro id m
    constructor
    · exact .inl
    · rintro (present | ⟨_, _, waits⟩)
      · exact present
      · cases waits.1
  | bypass next encoded direct =>
    refine orderly.append (by simpa using few) next rfl ?_ nodup
    intro id m
    constructor
    · exact .inl
    · rintro (present | ⟨_, _, waits⟩)
      · exact present
      · cases waits.2.1
  | @register request id wire next encoded shared =>
    have bound : l.calls.length + 1 < UInt32.size := by simpa [length_displaced] using few
    have number := orderly.next_requestId next bound
    rw [orderly.filter_fresh number] at nodup
    rw [orderly.displaced_fresh number, orderly.filter_fresh number]
    refine orderly.append bound next rfl ?_ nodup
    intro key m
    rw [List.mem_cons, Prod.mk.injEq, or_comm, and_comm (a := key = _)]
    exact or_congr_right (and_congr_right fun _ => ⟨fun same => ⟨same, rfl, rfl, rfl⟩, And.left⟩)
  | @advance n call f found live next same number wire mailbox =>
    refine orderly.modify found number ?_ nodup
    intro id m
    have waits : (f call).Waits ↔ call.Waits := by
      simp only [Call.Waits, live, next, same, mailbox]
    by_cases here : m = n
    · subst here
      rw [orderly.mem_pending_iff found, waits]
      simp
    · simp [here]
  | @finish n call phase found live ends earned =>
    refine orderly.modify found rfl ?_ nodup
    intro id m
    have ended : ¬ ({ call with phase } : Call).Waits := by
      rintro ⟨unended, _⟩
      rw [ends] at unended
      cases unended
    split
    · next direct =>
      have absent : (id, n) ∉ l.pending := by
        rw [orderly.mem_pending_iff found]
        rintro ⟨_, _, shared, _⟩
        rw [direct] at shared
        cases shared
      simp only [ended, and_false, or_false]
      refine ⟨fun present => ⟨present, ?_⟩, And.left⟩
      rintro rfl
      exact absent present
    · simp only [ended, and_false, or_false]
      exact orderly.mem_filter found
  | @hand n frame response waiter =>
    obtain ⟨call, found, number, _⟩ :=
      orderly.mem_pending.mp ((lookup_eq_some_iff_mem orderly.nodup).mp waiter)
    refine orderly.modify found rfl ?_ nodup
    intro id m
    have served : ¬ ({ call with mailbox := .full frame } : Call).Waits := by
      rintro ⟨_, _, empty⟩
      cases empty
    simp only [served, and_false, or_false]
    rw [← number]
    exact orderly.mem_filter found

end Orderly
end RpcClient.Multiplex
