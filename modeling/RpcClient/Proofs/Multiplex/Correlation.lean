import RpcClient.Proofs.Multiplex.Delivery

/-! Responses reach the calls that they answer. Nothing is assumed of the remotes: they may answer in any
order, late, twice, under numbers that were never given, or not at all. -/
namespace RpcClient.Multiplex

namespace Turn

variable {l l' : Ledger} {request : Option Request} {handed : Option (Nat × Frame)}

theorem codec_eq (turn : Turn l request handed l') : l'.codec = l.codec := by
  cases turn <;> rfl

theorem length_eq (turn : Turn l request handed l') :
    l'.calls.length = l.calls.length + request.toList.length := by
  cases turn <;> simp [length_displaced]

end Turn

/-- What calls hold is what the history tells, and the table holds the calls that wait. -/
structure History.Faithful (h : History) : Prop where
  orderly : Orderly h.channel.ledger
  delivered : Delivered h.channel.ledger h.handed
  recorded : Recorded h.channel.ledger h.requests
  sublist : (h.handed.map Prod.snd).Sublist h.responses

theorem Channel.handed?_sublist (ch : Channel) (event : Event) :
    ((ch.handed? event).toList.map Prod.snd).Sublist (ch.response? event).toList := by
  rw [handed?]
  cases ch.response? event with
  | none => exact .slnil
  | some frame =>
    rw [Option.bind_some]
    cases ch.waiter? frame.requestId with
    | none => exact List.nil_sublist _
    | some n => exact .refl _

namespace History

variable {h : History} {codec : Codec} {events : List Event}

theorem length_requests_le (h : History) (event : Event) :
    h.requests.length ≤ (h.step event).requests.length := by
  rw [History.step, List.length_append]
  exact Nat.le_add_right _ _

theorem Faithful.few_calls (faithful : h.Faithful) {event : Event}
    (few : (h.step event).requests.length < UInt32.size) :
    (h.channel.step event).ledger.calls.length < UInt32.size := by
  rw [(h.channel.step_turn event).length_eq, ← faithful.recorded.length, ← List.length_append]
  exact few

theorem Faithful.step (faithful : h.Faithful) (event : Event)
    (few : (h.step event).requests.length < UInt32.size) : (h.step event).Faithful := by
  have turn := h.channel.step_turn event
  have few' := faithful.few_calls few
  refine ⟨faithful.orderly.turn turn few', faithful.delivered.turn faithful.orderly turn few',
    faithful.recorded.turn faithful.orderly turn few', ?_⟩
  rw [History.step, List.map_append]
  exact faithful.sublist.append (h.channel.handed?_sublist event)

theorem faithful_new (codec : Codec) : Faithful { channel := .new codec } := by
  refine ⟨⟨rfl, ?_, ?_, List.nodup_nil⟩, ⟨?_, ?_, ?_, List.nodup_nil⟩, ⟨rfl, ?_⟩, .slnil⟩
  all_goals simp [Channel.ledger, Channel.new, Ledger.mail?]

theorem faithful_ofRun (few : (ofRun codec events).requests.length < UInt32.size) :
    (ofRun codec events).Faithful := by
  refine ofRun_invariant (P := fun h => h.requests.length < UInt32.size → h.Faithful)
    (fun _ => faithful_new codec) ?_ events few
  intro h event faithful few
  exact (faithful (Nat.lt_of_le_of_lt (h.length_requests_le event) few)).step event few

theorem codec_ofRun (events : List Event) : (ofRun codec events).channel.codec = codec :=
  ofRun_invariant (P := fun h => h.channel.codec = codec) rfl
    (fun h event same => (h.channel.step_turn event).codec_eq.trans same) events

/-! ### Responses and calls -/

/-- Responses and calls belong together by their numbers. -/
structure Correlated (codec : Codec) (h : History) : Prop where
  /-- Every call has its request. -/
  requests : h.requests.length = h.channel.calls.length
  /-- No two calls have the same number. -/
  numbers : (h.channel.calls.map Call.requestId).Nodup
  /-- A call over the shared connection that succeeds was handed the response that it gives, and has
  sent its request under the number of that response. -/
  answered : ∀ {n : Nat} {request call response}, h.requests[n]? = some request →
    request.target = "" → h.channel.calls[n]? = some call → call.phase = .done (.ok response) →
    codec.encode { codec.toFrame request with requestId := call.requestId } = .ok call.wire ∧
      ∃ frame, (n, frame) ∈ h.handed ∧ frame.isResponse = true ∧
        frame.requestId = call.requestId ∧ codec.ofFrame frame = .ok response
  /-- What a call holds is what it was handed, which is a response under its own number. -/
  mem_handed : ∀ {n frame}, (n, frame) ∈ h.handed ↔
    ∃ call, h.channel.calls[n]? = some call ∧ call.mailbox = .full frame ∧
      frame.isResponse = true ∧ frame.requestId = call.requestId
  /-- No call is handed two responses. -/
  calls : (h.handed.map Prod.fst).Nodup
  /-- No response is handed to two calls: those handed are among those decoded, in the same order. -/
  responses : (h.handed.map Prod.snd).Sublist h.responses

/-- In every run that gives no number twice, responses reach the calls that they answer, and no
others. -/
theorem correlated_ofRun (codec : Codec) (events : List Event)
    (few : (ofRun codec events).requests.length < UInt32.size) :
    (ofRun codec events).Correlated codec := by
  obtain ⟨orderly, delivered, recorded, sublist⟩ := faithful_ofRun few
  have same : (ofRun codec events).channel.ledger.codec = codec := codec_ofRun events
  refine ⟨recorded.length, orderly.nodup_requestId, ?_, ?_, delivered.nodup, sublist⟩
  · intro n request call response asked shared found success
    have origin := recorded.origin asked found
    rw [same] at origin
    obtain encoded | ⟨failure, failed⟩ := origin.encoded
    · obtain ⟨frame, full, answer⟩ := origin.earned success shared
      have held : (ofRun codec events).channel.ledger.mail? n = some (_, .full frame) :=
        Ledger.mail?_eq_some.mpr ⟨call, found, rfl, full⟩
      obtain ⟨response, number⟩ := delivered.own held
      exact ⟨encoded, frame, delivered.mem_log.mpr ⟨_, held⟩, response, number, answer⟩
    · rw [success] at failed
      cases failed
  · intro n frame
    rw [delivered.mem_log]
    constructor
    · rintro ⟨id, held⟩
      obtain ⟨call, found, rfl, full⟩ := Ledger.mail?_eq_some.mp held
      exact ⟨call, found, full, delivered.own held⟩
    · rintro ⟨call, found, full, _⟩
      exact ⟨call.requestId, Ledger.mail?_eq_some.mpr ⟨call, found, rfl, full⟩⟩

/-- An empty response under a small number. -/
def emptyReply (id : UInt8) : Bytes := [1, 0, 0, 2, 1, 0, 0, 0, id, 0, 0, 0, 0, 0, 0, 0, 0, 0, 0, 0]

/-- Two calls whose responses arrive in the opposite order. -/
def crossedCalls : List Event :=
  [.start {}, .start {}, .seek 0, .dialed 0 none, .seek 1, .enter 0, .write 0 64, .enter 1,
    .write 1 64, .received 0 (emptyReply 2 ++ emptyReply 1), .decode 0, .decode 0, .resume 0, .resume 1]

theorem crossed_calls_correlated :
    (ofRun (.bolt .v1 "") crossedCalls).handed.map Prod.fst = [1, 0] ∧
      (ofRun (.bolt .v1 "") crossedCalls).channel.calls.map (·.phase.isEnded) = [true, true] ∧
      (ofRun (.bolt .v1 "") crossedCalls).Correlated (.bolt .v1 "") :=
  ⟨rfl, rfl, correlated_ofRun _ _ (by rw [requests_ofRun]; decide)⟩

end History
end RpcClient.Multiplex
