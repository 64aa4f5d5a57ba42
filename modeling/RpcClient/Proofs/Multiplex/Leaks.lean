import RpcClient.Proofs.Multiplex.Correlation

/-! No call leaves its waiter behind. The table holds exactly the calls that still need it, so that it
is empty when no call is under way, and responses that come too late change nothing. -/
namespace RpcClient.Multiplex

/-- A call that has ended stays as it is. -/
theorem Turn.ended {l l' : Ledger} {request : Option Request} {handed : Option (Nat × Frame)} {n : Nat}
    {call : Call} (turn : Turn l request handed l') (orderly : Orderly l)
    (few : l'.calls.length < UInt32.size) (found : l.calls[n]? = some call)
    (ended : call.phase.isEnded = true) : l'.calls[n]? = some call := by
  have old : n < l.calls.length := (List.getElem?_eq_some_iff.mp found).1
  have other : ∀ {m live}, l.calls[m]? = some live → live.phase.isEnded = false → m ≠ n := by
    rintro m live found' unended rfl
    obtain rfl := Option.some.inj (found'.symm.trans found)
    rw [ended] at unended
    cases unended
  cases turn with
  | rest => exact found
  | refuse next refused => exact (List.getElem?_append_left old).trans found
  | bypass next encoded direct => exact (List.getElem?_append_left old).trans found
  | register next encoded shared =>
    have number := orderly.next_requestId next (by simpa [length_displaced] using few)
    simp only [orderly.displaced_fresh number]
    exact (List.getElem?_append_left old).trans found
  | advance f found' live next same number wire mailbox =>
    exact (List.getElem?_modify_ne f _ (other found' live)).trans found
  | finish phase found' live ends earned =>
    exact (List.getElem?_modify_ne _ _ (other found' live)).trans found
  | hand response waiter =>
    obtain ⟨call', found', number, live, _⟩ :=
      orderly.mem_pending.mp ((lookup_eq_some_iff_mem orderly.nodup).mp waiter)
    exact (List.getElem?_modify_ne _ _ (other found' live)).trans found

/-- A frame under a number that no call waits under only leaves the buffer. -/
theorem Channel.decode_of_absent {ch : Channel} {c : Nat} {frame : Frame} {rest : Bytes}
    (taken : ch.decoded? c = some (.frame frame rest))
    (absent : frame.requestId ∉ ch.pending.map Prod.fst) :
    ch.decode c = ch.modifyConn c fun conn => { conn with buffer := rest } := by
  have waiter : (ch.modifyConn c fun conn => { conn with buffer := rest }).waiter? frame.requestId =
      none := by
    rw [waiter?, List.lookup_eq_none_iff]
    intro entry present
    refine bne_iff_ne.mpr ?_
    rintro same
    exact absent (same ▸ List.mem_map_of_mem present)
  simp only [decode, taken, deliver, waiter, ite_self]

namespace History

variable {codec : Codec} {events : List Event}

/-- Whether a call has registered as a waiter: it uses the shared connection and its frame can be
written. -/
def Registered (codec : Codec) (h : History) (n : Nat) (call : Call) : Prop :=
  ∃ request wire, h.requests[n]? = some request ∧ request.target = "" ∧
    codec.encode { codec.toFrame request with requestId := call.requestId } = .ok wire

/-- Whether a call needs its waiter no more. -/
def Settled (h : History) (n : Nat) (call : Call) : Prop :=
  call.phase.isEnded = true ∨ ∃ frame, (n, frame) ∈ h.handed

/-- The table holds no more and no less than it has to. -/
structure Tidy (codec : Codec) (h : History) : Prop where
  nodup : (h.channel.pending.map Prod.fst).Nodup
  /-- The numbers in the table are those of the calls that have registered, were handed no response,
  and have not ended. -/
  mem_pending : ∀ {id}, id ∈ h.channel.pending.map Prod.fst ↔
    ∃ n call, h.channel.calls[n]? = some call ∧ call.requestId = id ∧ h.Registered codec n call ∧
      (∀ frame, (n, frame) ∉ h.handed) ∧ call.phase.isEnded = false
  absent : ∀ {n : Nat} {call}, h.channel.calls[n]? = some call → h.Settled n call →
    call.requestId ∉ h.channel.pending.map Prod.fst
  /-- A response that comes too late is taken off its buffer, and nothing else changes. -/
  late : ∀ {n c : Nat} {call frame rest}, h.channel.calls[n]? = some call → h.Settled n call →
    h.channel.decoded? c = some (.frame frame rest) → frame.requestId = call.requestId →
    h.channel.step (.decode c) = h.channel.modifyConn c fun conn => { conn with buffer := rest }
  idle : (∀ call ∈ h.channel.calls, call.phase.isEnded = true) → h.channel.pending.length = 0

variable {h : History}

theorem Faithful.waits_iff (faithful : h.Faithful) {n : Nat} {call : Call}
    (found : h.channel.calls[n]? = some call) :
    call.Waits ↔ h.Registered h.channel.codec n call ∧ (∀ frame, (n, frame) ∉ h.handed) ∧
      call.phase.isEnded = false := by
  have asked : ∃ request, h.requests[n]? = some request := by
    obtain ⟨bound, _⟩ := List.getElem?_eq_some_iff.mp found
    exact ⟨_, List.getElem?_eq_getElem (Nat.lt_of_lt_of_eq bound faithful.recorded.length.symm)⟩
  obtain ⟨request, asked⟩ := asked
  have origin := faithful.recorded.origin asked found
  have mail : h.channel.ledger.mail? n = some (call.requestId, call.mailbox) :=
    Ledger.mail?_eq_some.mpr ⟨call, found, rfl, rfl⟩
  constructor
  · rintro ⟨live, shared, empty⟩
    refine ⟨⟨request, call.wire, asked, (origin.shared_iff live).mp shared,
      origin.encoded_of_live live⟩, ?_, live⟩
    intro frame handed
    obtain ⟨id, full⟩ := faithful.delivered.mem_log.mp handed
    rw [mail, empty] at full
    cases full
  · rintro ⟨⟨request', wire, asked', shared, _⟩, unserved, live⟩
    obtain rfl := Option.some.inj (asked.symm.trans asked')
    refine ⟨live, (origin.shared_iff live).mpr shared, ?_⟩
    cases held : call.mailbox with
    | empty => rfl
    | full frame =>
      rw [held] at mail
      exact (unserved frame (faithful.delivered.mem_log.mpr ⟨_, mail⟩)).elim
    | abandoned =>
      rw [held] at mail
      exact (faithful.delivered.kept mail).elim

theorem Faithful.mem_pending (faithful : h.Faithful) {id : UInt64} :
    id ∈ h.channel.pending.map Prod.fst ↔
      ∃ n call, h.channel.calls[n]? = some call ∧ call.requestId = id ∧
        h.Registered h.channel.codec n call ∧ (∀ frame, (n, frame) ∉ h.handed) ∧
        call.phase.isEnded = false := by
  simp only [List.mem_map, Prod.exists, exists_and_right, exists_eq_right]
  refine exists_congr fun n => faithful.orderly.mem_pending.trans (exists_congr fun call => ?_)
  exact and_congr_right fun found => and_congr_right fun _ => faithful.waits_iff found

theorem Faithful.absent (faithful : h.Faithful) {n : Nat} {call : Call}
    (found : h.channel.calls[n]? = some call) (settled : h.Settled n call) :
    call.requestId ∉ h.channel.pending.map Prod.fst := by
  intro present
  obtain ⟨m, other, found', same, _, unserved, live⟩ := faithful.mem_pending.mp present
  obtain rfl := faithful.orderly.unique found' found same
  obtain rfl := Option.some.inj (found'.symm.trans found)
  obtain ended | ⟨frame, handed⟩ := settled
  · rw [ended] at live
    cases live
  · exact unserved frame handed

theorem Faithful.tidy (faithful : h.Faithful) : h.Tidy h.channel.codec := by
  refine ⟨faithful.orderly.nodup, faithful.mem_pending, faithful.absent, ?_, ?_⟩
  · intro n c call frame rest found settled taken number
    exact Channel.decode_of_absent taken (number ▸ faithful.absent found settled)
  · intro allEnded
    rw [List.length_eq_zero_iff, List.eq_nil_iff_forall_not_mem]
    rintro ⟨id, n⟩ present
    obtain ⟨call, found, _, live, _⟩ := faithful.orderly.mem_pending.mp present
    rw [allEnded call (List.mem_of_getElem? found)] at live
    cases live

/-- In every run that gives no number twice the table is tidy, and a call that has ended stays as it is
for the rest of the run, so that its waiter is gone for good. -/
theorem tidy_ofRun (codec : Codec) (events later : List Event)
    (few : (ofRun codec (events ++ later)).requests.length < UInt32.size) :
    (ofRun codec (events ++ later)).Tidy codec ∧
      ∀ {n : Nat} {call : Call}, (ofRun codec events).channel.calls[n]? = some call →
        call.phase.isEnded = true → (ofRun codec (events ++ later)).channel.calls[n]? = some call := by
  constructor
  · have tidy := (faithful_ofRun few).tidy
    rwa [codec_ofRun] at tidy
  · intro n call found ended
    rw [ofRun_append] at few ⊢
    have kept := List.foldlRecOn (motive := fun h => h.requests.length < UInt32.size →
      h.Faithful ∧ h.channel.calls[n]? = some call) later step
      (fun few => ⟨faithful_ofRun few, found⟩) ?_
    · exact (kept few).2
    · intro h ih event _ few
      obtain ⟨faithful, found⟩ := ih (Nat.lt_of_le_of_lt (h.length_requests_le event) few)
      exact ⟨faithful.step event few, (h.channel.step_turn event).ended faithful.orderly
        (faithful.few_calls few) found ended⟩

/-- A call that runs out of time while it waits. -/
def expiredCall : List Event := [.start {}, .seek 0, .dialed 0 none, .enter 0, .write 0 64, .deadline 0]

/-- The response to the first call. -/
def lateReply : List Event := [.received 0 (emptyReply 1), .decode 0]

theorem late_reply_tidy :
    (ofRun (.bolt .v1 "") expiredCall).channel.calls.map (·.phase.isEnded) = [true] ∧
      (ofRun (.bolt .v1 "") (expiredCall ++ lateReply)).responses.length = 1 ∧
      (ofRun (.bolt .v1 "") (expiredCall ++ lateReply)).channel.pending.length = 0 ∧
      (ofRun (.bolt .v1 "") (expiredCall ++ lateReply)).Tidy (.bolt .v1 "") := by
  have tidy := (tidy_ofRun (.bolt .v1 "") expiredCall lateReply (by rw [requests_ofRun]; decide)).1
  exact ⟨rfl, rfl, rfl, tidy⟩

end History
end RpcClient.Multiplex
