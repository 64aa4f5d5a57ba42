import RpcClient.Proofs.Multiplex.Waiters

/-! What calls were started with and what they were handed, through every turn. -/
namespace RpcClient.Multiplex

/-! ### What calls are handed -/

/-- The number of a call, and what it was handed. -/
def Ledger.mail? (l : Ledger) (n : Nat) : Option (UInt64 × Mailbox) :=
  l.calls[n]?.map fun call => (call.requestId, call.mailbox)

/-- Calls hold what they were handed according to the log, which is never more than one response, and
one under their own number. -/
structure Logged (l : Ledger) (log : List (Nat × Frame)) : Prop where
  mem_log : ∀ {n frame}, (n, frame) ∈ log ↔ ∃ id, l.mail? n = some (id, .full frame)
  own : ∀ {n id frame}, l.mail? n = some (id, .full frame) →
    frame.isResponse = true ∧ frame.requestId = id
  nodup : (log.map Prod.fst).Nodup

/-- The same of calls of which none has lost its place to another one. -/
structure Delivered (l : Ledger) (log : List (Nat × Frame)) : Prop where
  mem_log : ∀ {n frame}, (n, frame) ∈ log ↔ ∃ id, l.mail? n = some (id, .full frame)
  own : ∀ {n id frame}, l.mail? n = some (id, .full frame) →
    frame.isResponse = true ∧ frame.requestId = id
  kept : ∀ {n id}, l.mail? n ≠ some (id, .abandoned)
  nodup : (log.map Prod.fst).Nodup

theorem Ledger.mail?_eq_some {l : Ledger} {n : Nat} {id : UInt64} {mailbox : Mailbox} :
    l.mail? n = some (id, mailbox) ↔
      ∃ call, l.calls[n]? = some call ∧ call.requestId = id ∧ call.mailbox = mailbox := by
  simp only [mail?, Option.map_eq_some_iff, Prod.mk.injEq]

theorem Ledger.mail?_append {l : Ledger} {call : Call} {lastId : UInt32}
    {pending : List (UInt64 × Nat)} (n : Nat) :
    ({ l with lastId, calls := l.calls ++ [call], pending } : Ledger).mail? n =
      if n = l.calls.length then some (call.requestId, call.mailbox) else l.mail? n := by
  rw [mail?, mail?, getElem?_concat]
  split
  · rfl
  · rfl

theorem Ledger.mail?_modify {l : Ledger} {n : Nat} {call : Call} {f : Call → Call}
    {pending : List (UInt64 × Nat)} (found : l.calls[n]? = some call) (m : Nat) :
    ({ l with calls := l.calls.modify n f, pending } : Ledger).mail? m =
      if n = m then some ((f call).requestId, (f call).mailbox) else l.mail? m := by
  rw [mail?, mail?, getElem?_modify_of_eq_some found]
  split
  · rfl
  · rfl

variable {l l' : Ledger} {request : Option Request} {handed : Option (Nat × Frame)} {n : Nat} {call : Call}
  {log : List (Nat × Frame)}

namespace Logged

theorem of_full_iff (logged : Logged l log)
    (full : ∀ {n id frame}, l'.mail? n = some (id, .full frame) ↔ l.mail? n = some (id, .full frame)) :
    Logged l' log := by
  refine ⟨fun {n frame} => ?_, fun held => logged.own (full.mp held), logged.nodup⟩
  rw [logged.mem_log]
  exact exists_congr fun id => full.symm

/-- A call that was handed nothing is handed nothing by a change of its state. -/
theorem modify {f : Call → Call} {pending : List (UInt64 × Nat)} (logged : Logged l log)
    (found : l.calls[n]? = some call) (number : (f call).requestId = call.requestId)
    (mailbox : ∀ frame, (f call).mailbox = .full frame ↔ call.mailbox = .full frame) :
    Logged { l with calls := l.calls.modify n f, pending } log := by
  refine logged.of_full_iff fun {m id frame} => ?_
  rw [Ledger.mail?_modify found]
  split
  · next here =>
    rw [← here, Ledger.mail?, found, Option.map_some, Option.some.injEq, Option.some.injEq, Prod.mk.injEq,
      Prod.mk.injEq, number, mailbox]
  · exact Iff.rfl

theorem append {pending : List (UInt64 × Nat)} {lastId : UInt32} (logged : Logged l log)
    (empty : call.mailbox = .empty) :
    Logged { l with lastId, calls := l.calls ++ [call], pending } log := by
  refine logged.of_full_iff fun {m id frame} => ?_
  rw [Ledger.mail?_append]
  split
  · next last => simp [last, Ledger.mail?, empty]
  · exact Iff.rfl

theorem displaced (logged : Logged l log) (listed : Listed l) (id : UInt64) :
    Logged { l with calls := l.displaced id } log := by
  rw [Ledger.displaced]
  split
  · exact logged
  · next m waiter =>
    obtain ⟨call, found, _, _, _, empty⟩ := listed.waits (listed.lookup.mp waiter)
    refine logged.modify found rfl fun frame => ?_
    rw [empty]
    exact ⟨Mailbox.noConfusion, Mailbox.noConfusion⟩

theorem hand {frame : Frame} {pending : List (UInt64 × Nat)} (logged : Logged l log)
    (found : l.calls[n]? = some call) (empty : call.mailbox = .empty) (response : frame.isResponse = true)
    (number : call.requestId = frame.requestId) :
    Logged
      { l with
        calls := l.calls.modify n fun call => { call with mailbox := .full frame }, pending }
      (log ++ [(n, frame)]) := by
  have mail : l.mail? n = some (call.requestId, .empty) := by
    rw [Ledger.mail?, found, Option.map_some, empty]
  have waiting : ∀ other, (n, other) ∉ log := by
    intro other held
    obtain ⟨id, full⟩ := logged.mem_log.mp held
    rw [mail] at full
    cases full
  refine ⟨fun {m other} => ?_, fun {m id other} held => ?_, ?_⟩
  · rw [List.mem_append, List.mem_singleton, Ledger.mail?_modify found]
    by_cases here : n = m
    · subst here
      simp [waiting, eq_comm]
    · rw [if_neg here, logged.mem_log]
      simp [Ne.symm here]
  · rw [Ledger.mail?_modify found] at held
    split at held
    · cases held
      exact ⟨response, number.symm⟩
    · exact logged.own held
  · rw [List.map_append, List.nodup_append]
    refine ⟨logged.nodup, List.pairwise_singleton _ n, ?_⟩
    rintro m held m' last rfl
    obtain ⟨⟨_, other⟩, held', rfl⟩ := List.mem_map.mp held
    obtain rfl := List.mem_singleton.mp last
    exact waiting other held'

theorem turn (logged : Logged l log) (listed : Listed l) (turn : Turn l request handed l') :
    Logged l' (log ++ handed.toList) := by
  cases turn with
  | rest => simpa using logged
  | refuse next refused => simpa using logged.append rfl
  | bypass next encoded direct => simpa using logged.append rfl
  | @register request id wire next encoded shared =>
    rw [Option.toList_none, List.append_nil]
    exact (logged.displaced listed id.toUInt64).append rfl
  | advance f found live next same number wire mailbox =>
    simpa using logged.modify found number fun frame => by rw [mailbox]
  | finish phase found live ends earned => simpa using logged.modify found rfl fun frame => Iff.rfl
  | @hand n frame response waiter =>
    obtain ⟨call, found, number, _, _, empty⟩ := listed.waits (listed.lookup.mp waiter)
    exact logged.hand found empty response number

end Logged

namespace Delivered

theorem logged (delivered : Delivered l log) : Logged l log :=
  ⟨delivered.mem_log, delivered.own, delivered.nodup⟩

theorem kept_append {lastId : UInt32} {pending : List (UInt64 × Nat)} (delivered : Delivered l log)
    (empty : call.mailbox = .empty) {m : Nat} {id : UInt64} :
    ({ l with lastId, calls := l.calls ++ [call], pending } : Ledger).mail? m ≠ some (id, .abandoned) := by
  rw [Ledger.mail?_append]
  split
  · simp [empty]
  · exact delivered.kept

theorem kept_modify {f : Call → Call} {pending : List (UInt64 × Nat)} (delivered : Delivered l log)
    (found : l.calls[n]? = some call) (kept : (f call).mailbox ≠ .abandoned) {m : Nat} {id : UInt64} :
    ({ l with calls := l.calls.modify n f, pending } : Ledger).mail? m ≠ some (id, .abandoned) := by
  rw [Ledger.mail?_modify found]
  split
  · simp [kept]
  · exact delivered.kept

/-- Turns keep the log true. -/
theorem turn (delivered : Delivered l log) (orderly : Orderly l) (turn : Turn l request handed l')
    (few : l'.calls.length < UInt32.size) : Delivered l' (log ++ handed.toList) := by
  have logged := delivered.logged.turn orderly.listed turn
  have calm : ∀ {n : Nat} {call : Call}, l.calls[n]? = some call → call.mailbox ≠ .abandoned :=
    fun found abandoned => delivered.kept (Ledger.mail?_eq_some.mpr ⟨_, found, rfl, abandoned⟩)
  refine ⟨logged.mem_log, logged.own, ?_, logged.nodup⟩
  cases turn with
  | rest => exact delivered.kept
  | refuse => exact delivered.kept_append rfl
  | bypass => exact delivered.kept_append rfl
  | register next encoded shared =>
    have number := orderly.next_requestId next (by simpa [length_displaced] using few)
    rw [orderly.displaced_fresh number]
    intro m id
    exact delivered.kept_append rfl
  | advance f found live next same number wire mailbox =>
    exact delivered.kept_modify found (mailbox ▸ calm found)
  | @finish n call phase found =>
    exact delivered.kept_modify found (show call.mailbox ≠ .abandoned from calm found)
  | hand response waiter =>
    obtain ⟨call, found, _⟩ := orderly.listed.waits (orderly.listed.lookup.mp waiter)
    exact delivered.kept_modify found Mailbox.noConfusion

end Delivered

/-! ### What calls were started with -/

/-- How a call goes back to its request. -/
structure Origin (codec : Codec) (request : Request) (call : Call) : Prop where
  /-- While it lasts, it uses the shared connection unless the request names an address. -/
  shared_iff : call.phase.isEnded = false → (call.phase.isDirect = false ↔ request.target = "")
  /-- It writes the frame of the request under its own number, unless it fails. -/
  encoded : codec.encode { codec.toFrame request with requestId := call.requestId } = .ok call.wire ∨
    ∃ failure, call.phase = .done (.error failure)
  /-- Over the shared connection it succeeds only by what it was handed. -/
  earned : ∀ {response}, call.phase = .done (.ok response) → request.target = "" →
    ∃ frame, call.mailbox = .full frame ∧ codec.ofFrame frame = .ok response

theorem Origin.encoded_of_live {codec : Codec} {request : Request} {call : Call}
    (origin : Origin codec request call) (live : call.phase.isEnded = false) :
    codec.encode { codec.toFrame request with requestId := call.requestId } = .ok call.wire := by
  obtain encoded | ⟨failure, failed⟩ := origin.encoded
  · exact encoded
  · rw [failed] at live
    cases live

/-- Every call goes back to its request. -/
structure Recorded (l : Ledger) (requests : List Request) : Prop where
  length : requests.length = l.calls.length
  origin : ∀ {n : Nat} {request call}, requests[n]? = some request → l.calls[n]? = some call →
    Origin l.codec request call

namespace Recorded

variable {l l' : Ledger} {requests : List Request}

theorem append {request : Request} {call : Call} {lastId : UInt32} {pending : List (UInt64 × Nat)}
    (recorded : Recorded l requests) (origin : Origin l.codec request call) :
    Recorded { l with lastId, calls := l.calls ++ [call], pending } (requests ++ [request]) := by
  refine ⟨by simp [recorded.length], ?_⟩
  intro n request' call' asked found
  rw [getElem?_concat, recorded.length] at asked
  rw [getElem?_concat] at found
  split at found
  · next last =>
    rw [if_pos last] at asked
    obtain rfl := Option.some.inj asked
    obtain rfl := Option.some.inj found
    exact origin
  · next old =>
    rw [if_neg old] at asked
    exact recorded.origin asked found

theorem modify {n : Nat} {call : Call} {f : Call → Call} {pending : List (UInt64 × Nat)}
    (recorded : Recorded l requests) (found : l.calls[n]? = some call)
    (origin : ∀ {request}, Origin l.codec request call → Origin l.codec request (f call)) :
    Recorded { l with calls := l.calls.modify n f, pending } requests := by
  refine ⟨by simp [recorded.length], ?_⟩
  intro m request call' asked found'
  rw [getElem?_modify_of_eq_some found] at found'
  split at found'
  · next here =>
    subst here
    obtain rfl := Option.some.inj found'
    exact origin (recorded.origin asked found)
  · exact recorded.origin asked found'

/-- Turns keep calls to their requests. -/
theorem turn {request : Option Request} {handed : Option (Nat × Frame)}
    (recorded : Recorded l requests) (orderly : Orderly l) (turn : Turn l request handed l')
    (few : l'.calls.length < UInt32.size) : Recorded l' (requests ++ request.toList) := by
  cases turn with
  | rest => simpa using recorded
  | refuse next refused =>
    refine recorded.append ⟨?_, .inr ⟨_, rfl⟩, ?_⟩
    · intro live
      cases live
    · intro response success
      cases success
  | bypass next encoded direct =>
    refine recorded.append ⟨fun _ => ⟨?_, fun shared => (direct shared).elim⟩, .inl encoded, ?_⟩
    · intro shared
      cases shared
    · intro response success
      cases success
  | register next encoded shared =>
    have number := orderly.next_requestId next (by simpa [length_displaced] using few)
    rw [orderly.displaced_fresh number]
    refine recorded.append ⟨fun _ => ⟨fun _ => shared, fun _ => rfl⟩, .inl encoded, ?_⟩
    intro response success
    cases success
  | @advance n call f found live next same number wire mailbox =>
    simp only [Option.toList_none, List.append_nil]
    refine recorded.modify found fun {request} origin => ⟨?_, ?_, ?_⟩
    · intro _
      rw [same]
      exact origin.shared_iff live
    · rw [number, wire]
      exact .inl (origin.encoded_of_live live)
    · intro response success
      rw [success] at next
      cases next
  | @finish n call phase found live ends earned =>
    simp only [Option.toList_none, List.append_nil]
    refine recorded.modify found fun {request} origin => ⟨?_, ?_, ?_⟩
    · intro unended
      rw [show phase.isEnded = false from unended] at ends
      cases ends
    · exact .inl (origin.encoded_of_live live)
    · intro response success shared
      exact earned response success ((origin.shared_iff live).mpr shared)
  | @hand n frame response waiter =>
    obtain ⟨call, found, number, live, _, empty⟩ :=
      orderly.mem_pending.mp ((lookup_eq_some_iff_mem orderly.nodup).mp waiter)
    simp only [Option.toList_none, List.append_nil]
    refine recorded.modify found fun {request} origin => ⟨origin.shared_iff, origin.encoded, ?_⟩
    intro response success
    rw [show call.phase = _ from success] at live
    cases live

end Recorded
end RpcClient.Multiplex
