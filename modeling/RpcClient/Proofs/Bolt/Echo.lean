import RpcClient.Proofs.Bolt.RoundTrip
import RpcClient.Proofs.Entries

/-! A request and the reply that gives it back. The reply has a shorter fixed part than the request, so that
it fits where the request did, and what the remote was told comes back to the caller. -/
namespace RpcClient.Bolt

variable {version : Version} {frame : Frame} {wire : Bytes}

/-- The reply with the body and the header entries of the frame that it answers. -/
def echo (frame : Frame) (status : UInt16) : Frame :=
  { frame.reply status frame.body with headers := frame.headers }

/-- Frames of which the wire carries everything. -/
structure Carried (frame : Frame) : Prop where
  requestId : frame.requestId.toNat < UInt32.size
  timeoutMs : frame.isResponse = true → frame.timeoutMs = 0
  status : frame.isResponse = false → frame.status = 0

theorem Carried.carried_eq (whole : Carried frame) : carried frame = frame := by
  obtain ⟨kind, requestId, timeoutMs, className, status, serialization, headers, body⟩ := frame
  have number := whole.requestId
  have timeout := whole.timeoutMs
  have status := whole.status
  dsimp only at number timeout status
  rw [carried]
  simp only [Nat.mod_eq_of_lt number, UInt64.ofNat_toNat]
  cases response : (Frame.mk kind requestId timeoutMs className _ serialization headers body).isResponse with
  | false => simp [status response]
  | true => simp [timeout response]

theorem Carried.decode_eq (whole : Carried frame) (encoded : encode version frame = .ok wire) :
    decode version wire = .frame frame [] := by
  obtain ⟨-, decoded⟩ := (decode_undoes_encode version frame).2 wire encoded
  have alone := decoded []
  rwa [List.append_nil, whole.carried_eq] at alone

theorem Carried.echo (whole : Carried frame) (status : UInt16) : Carried (echo frame status) where
  requestId := whole.requestId
  timeoutMs _ := rfl
  status request := nomatch request

theorem Fits.echo (fits : Fits version frame) (request : frame.isResponse = false) (status : UInt16) :
    Fits version (echo frame status) where
  className := fits.className
  headers := fits.headers
  size := by
    have size := fits.size
    have shorter : version.fixedSize true ≤ version.fixedSize false := by cases version <;> decide
    rw [wireSize, request] at size
    exact Nat.le_trans (Nat.add_le_add_right (Nat.add_le_add_right (Nat.add_le_add_right shorter _) _) _)
      size

theorem statusError?_eq_none_iff {status : UInt16} : statusError? status = none ↔ status = 0 := by
  constructor
  · intro success
    rw [statusError?.eq_def] at success
    split at success
    · rfl
    all_goals cases success
  · rintro rfl
    rfl

theorem status_of_statusError? {status : UInt16} {error : RemoteError}
    (failed : statusError? status = some error) : error.status = status := by
  rw [statusError?.eq_def] at failed
  split at failed
  · cases failed
  all_goals
    cases failed
    rfl

/-- A request with any number of 32 bits arrives as it is. The reply with its body and its header entries
can be sent and comes back as a response with the data of the request and with the joined value of each of
its header keys; the status says whether it is a success, and changes nothing else. -/
theorem echo_reaches_caller (version : Version) (className : String) (request : Request)
    (requestId : UInt32) (status : UInt16) (wire : Bytes)
    (encoded : encode version { toFrame className request with requestId := requestId.toUInt64 } =
      .ok wire) :
    ∃ received reply answer response,
      decode version wire = .frame received [] ∧ encode version (echo received status) = .ok reply ∧
      decode version reply = .frame answer [] ∧ ofFrame answer = .ok response ∧
      answer.requestId = requestId.toUInt64 ∧ response.data = request.data ∧
      (∀ key, response.header.get key = request.header.get key ∧
        response.header.contains key = request.header.contains key) ∧
      (response.success = true ∧ response.error = none ↔ status = 0) ∧
      (status ≠ 0 → response.success = false ∧
        ∃ error, response.error = some error ∧ error.status = status) := by
  have sent : Carried { toFrame className request with requestId := requestId.toUInt64 } :=
    ⟨requestId.toNat_lt, nofun, fun _ => rfl⟩
  have fits := (encode_eq_ok_iff.mp encoded).1
  have answered := sent.echo status
  have replied := encode_of_fits (fits.echo rfl status)
  have failed : status ≠ 0 → ∃ error, statusError? status = some error := by
    intro nonzero
    exact Option.ne_none_iff_exists'.mp (mt statusError?_eq_none_iff.mp nonzero)
  refine ⟨_, _, _, _, sent.decode_eq encoded, replied, answered.decode_eq replied, rfl, rfl, rfl, ?_, ?_, ?_⟩
  · intro key
    exact ⟨Header.get_ofList_toList request.header key, Header.contains_ofList_toList request.header key⟩
  · change (statusError? status).isNone = true ∧ statusError? status = none ↔ status = 0
    rw [Option.isNone_iff_eq_none, and_self, statusError?_eq_none_iff]
  · intro nonzero
    obtain ⟨error, found⟩ := failed nonzero
    change (statusError? status).isNone = false ∧ ∃ error, statusError? status = some error ∧ _
    rw [found]
    exact ⟨rfl, error, rfl, status_of_statusError? found⟩

/-- A request with two values under one key, none under another and a value under the empty one. -/
def taggedRequest : Request where
  header := ⟨[("k", ["v", "w"]), ("e", []), ("", ["é"])], by decide⟩
  data := [9]
  timeoutMs := 50

theorem tagged_request_comes_back_failed :
    ∃ wire received reply answer response,
      encode .v2 { toFrame "c" taggedRequest with requestId := 4294967295 } = .ok wire ∧
      decode .v2 wire = .frame received [] ∧ encode .v2 (echo received 17) = .ok reply ∧
      decode .v2 reply = .frame answer [] ∧ ofFrame answer = .ok response ∧
      answer.requestId = 4294967295 ∧ response.data = [9] ∧ response.header.get "k" = "v,w" ∧
      response.header.contains "e" = true ∧ response.header.contains "x" = false ∧
      response.success = false ∧ ∃ error, response.error = some error ∧ error.status = 17 := by
  have fits : Fits .v2 { toFrame "c" taggedRequest with requestId := 4294967295 } :=
    ⟨by decide, by decide +kernel, by decide +kernel⟩
  have encoded := encode_of_fits fits
  obtain ⟨received, reply, answer, response, decoded, replied, returned, told, requestId, data, header, -,
    failed⟩ := echo_reaches_caller .v2 "c" taggedRequest 4294967295 17 _ encoded
  obtain ⟨unsuccessful, error⟩ := failed (by decide)
  refine ⟨_, received, reply, answer, response, encoded, decoded, replied, returned, told, requestId, data,
    ?_, ?_, ?_, unsuccessful, error⟩
  · rw [(header "k").1]
    decide
  · rw [(header "e").2]
    decide
  · rw [(header "x").2]
    decide

end RpcClient.Bolt
