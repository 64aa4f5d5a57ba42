import RpcClient.Proofs.Dubbo.Metadata
import RpcClient.Proofs.Number

/-! A relay that decodes a call and encodes it again sends the bytes that it has received. What it takes out
of the body, header entries and timeout alike, goes back into the body in the place where it was. -/
namespace RpcClient.Dubbo
open Hessian

variable {frame received : Frame} {invocation : Invocation} {wire : Bytes}
  {inBody : List (String × String)}

/-! ### The attachments that are sent -/

theorem get?_timeoutKey_attachmentsOf (timed : 0 < frame.timeoutMs) (inBody : List (String × String)) :
    Entries.get? timeoutKey (attachmentsOf frame inBody) = some (toString frame.timeoutMs.toNat) := by
  rw [attachmentsOf]
  dsimp only
  rw [if_pos timed, Entries.put, Entries.get?_alter, if_pos rfl]

theorem attachmentsOf_ne_nil (timed : 0 < frame.timeoutMs) (inBody : List (String × String)) :
    attachmentsOf frame inBody ≠ [] := by
  intro none
  have timeout := get?_timeoutKey_attachmentsOf timed inBody
  rw [none] at timeout
  cases timeout

theorem nodup_keys_attachmentsOf (distinct : (inBody.map Prod.fst).Nodup) (frame : Frame) :
    ((attachmentsOf frame inBody).map Prod.fst).Nodup := by
  rw [attachmentsOf_eq_putAll]
  exact Entries.nodup_keys_putAll distinct _

/-! ### The frame that the relay gets -/

/-- The last attachment of the timeout counts. -/
theorem timeoutMs_foldl_receiveAttachment (attachments : List (String × String)) (frame : Frame) :
    (attachments.foldl receiveAttachment frame).timeoutMs =
      match (Entries.values timeoutKey attachments).getLast? with
      | none => frame.timeoutMs
      | some text => UInt32.ofNat ((Number.read? UInt32.size text).getD 0) := by
  induction attachments generalizing frame with
  | nil => rfl
  | cons attachment attachments ih =>
    obtain ⟨key, value⟩ := attachment
    rw [List.foldl_cons, ih, Entries.values_cons, receiveAttachment]
    by_cases timeout : key = timeoutKey
    · rw [if_pos timeout, if_pos timeout, List.getLast?_cons]
      cases (Entries.values timeoutKey attachments).getLast? <;> rfl
    · rw [if_neg timeout, if_neg timeout]
      rfl

/-- The frame that arrives when these attachments are sent. -/
def relayed (frame : Frame) (invocation : Invocation) : Frame :=
  withInvocation (carried frame)
    { invocation with attachments := attachmentsOf frame invocation.attachments }

theorem timeoutMs_relayed (timed : 0 < frame.timeoutMs)
    (distinct : (invocation.attachments.map Prod.fst).Nodup) :
    (relayed frame invocation).timeoutMs = frame.timeoutMs := by
  have told : Entries.values timeoutKey (attachmentsOf frame invocation.attachments) =
      [toString frame.timeoutMs.toNat] := by
    rw [Entries.values_of_nodup (nodup_keys_attachmentsOf distinct frame),
      get?_timeoutKey_attachmentsOf timed]
    rfl
  have received := timeoutMs_foldl_receiveAttachment (attachmentsOf frame invocation.attachments)
    { carried frame with headers := invocation.service }
  rw [told, List.getLast?_singleton] at received
  dsimp only at received
  rw [Number.read?_toString frame.timeoutMs.toNat_lt, Option.getD_some, UInt32.ofNat_toNat] at received
  exact received

theorem exists_relayed (frame : Frame) (invocation : Invocation) : ∃ timeoutMs className,
    relayed frame invocation = { carried frame with
      timeoutMs
      className
      headers := Invocation.headers
        { invocation with attachments := attachmentsOf frame invocation.attachments } } := by
  obtain ⟨timeoutMs, arrived⟩ := exists_withInvocation (carried frame)
    { invocation with attachments := attachmentsOf frame invocation.attachments }
  exact ⟨timeoutMs, _, arrived⟩

/-- What the relay has taken out of the body is among the attachments already. -/
theorem attachmentsOf_relayed (parsed : Invocation.parse frame.body = .ok invocation)
    (timed : 0 < frame.timeoutMs) (distinct : (invocation.attachments.map Prod.fst).Nodup) :
    attachmentsOf (relayed frame invocation) (attachmentsOf frame invocation.attachments) =
      attachmentsOf frame invocation.attachments := by
  have unique := nodup_keys_attachmentsOf distinct frame
  rw [attachmentsOf_eq_putAll (relayed frame invocation)]
  refine Entries.putAll_eq_self fun entry member => ?_
  obtain header | timeout := List.mem_append.mp member
  · obtain ⟨header, other⟩ := List.mem_filter.mp header
    obtain ⟨timeoutMs, className, arrived⟩ := exists_relayed frame invocation
    rw [arrived] at header
    obtain sent | service := Entries.mem_putAll header
    · exact Entries.get?_of_mem unique (List.mem_filter.mp sent).1
    · rw [List.contains_iff_mem.mpr (Invocation.key_mem_serviceKeys parsed entry service)] at other
      cases other
  · rw [eq_of_mem_timeoutAttachments timeout, timeoutMs_relayed timed distinct]
    exact get?_timeoutKey_attachmentsOf timed _

/-! ### The bytes that the relay sends -/

theorem flagsOf_mod_serialization (kind : FrameKind) (serialization : UInt8) :
    flagsOf kind (serialization % 32) = flagsOf kind serialization := by
  rw [← UInt8.toNat_inj, toNat_flagsOf, toNat_flagsOf, UInt8.toNat_mod]
  exact congrArg (kindFlags kind + ·) (Nat.mod_mod _ _)

/-- Frames that differ in nothing that a call writes are written alike. -/
theorem encode_congr (call : frame.isResponse = false) (kind : received.kind = frame.kind)
    (requestId : received.requestId = frame.requestId)
    (serialization : received.serialization = frame.serialization % 32)
    (body : sentBody received = sentBody frame) : encode received = encode frame := by
  have call' : received.isResponse = false := by rw [Frame.isResponse, kind]; exact call
  have fields' : fields received = fields frame := by
    rw [fields, fields, call, call', kind, requestId, serialization, flagsOf_mod_serialization, body]
    rfl
  rw [encode_eq, encode_eq, call, call', fields', body]
  simp only [Bool.false_eq_true, false_and, if_false]

theorem attach_relayed (carries : carriesInvocation frame.kind = true)
    (parsed : Invocation.parse frame.body = .ok invocation) (timed : 0 < frame.timeoutMs)
    (distinct : (invocation.attachments.map Prod.fst).Nodup)
    (short : ∀ entry ∈ attachmentsOf frame invocation.attachments, Short entry) :
    attach (relayed frame invocation) = attach frame := by
  obtain ⟨timeoutMs, className, arrived⟩ := exists_relayed frame invocation
  have body : (relayed frame invocation).body = attach frame := by
    rw [arrived]
    exact if_pos carries
  have again := parse_attach parsed short
  rw [← body] at again
  have same := attachmentsOf_relayed parsed timed distinct
  have front : (attach frame).take invocation.argumentsEnd = frame.body.take invocation.argumentsEnd := by
    obtain ⟨front, map, whole, length, -⟩ := Invocation.exists_front parsed
    rw [attach_of_parse parsed (attachmentsOf_ne_nil timed _), whole, ← length, List.take_left,
      List.take_left]
  rw [attach_of_parse again (by rw [same]; exact attachmentsOf_ne_nil timed _)]
  dsimp only
  rw [same, body, front]
  exact (attach_of_parse parsed (attachmentsOf_ne_nil timed _)).symm

/-- A call with a timeout goes through a relay without a change to its bytes, whether its body is an
invocation or not. -/
theorem relay_sends_what_it_received (frame : Frame) (wire rest : Bytes)
    (kind : frame.kind = .request ∨ frame.kind = .oneway) (timed : 0 < frame.timeoutMs)
    (distinct : ∀ invocation, Invocation.parse frame.body = .ok invocation →
      (invocation.attachments.map Prod.fst).Nodup ∧ ∀ entry ∈ invocation.attachments, Short entry)
    (headers : ∀ entry ∈ frame.headers, Short entry) (encoded : encode frame = .ok wire) :
    ∃ received, decode (wire ++ rest) = .frame received rest ∧ encode received = .ok wire := by
  have carries := carriesInvocation_iff.mpr kind
  have call : frame.isResponse = false := by
    obtain kind | kind := kind
    all_goals
      rw [Frame.isResponse, kind]
      rfl
  refine ⟨described (carried frame), decode_encode encoded rest, ?_⟩
  rw [← encoded]
  cases parsed : Invocation.parse frame.body with
  | error flaw =>
    have plain : Plain frame := by
      intro _ invocation parsed'
      rw [parsed] at parsed'
      cases parsed'
    have same : (carried frame).body = frame.body := plain.sentBody_eq
    have plain' : Plain (carried frame) := by
      rw [Plain, same]
      exact plain
    rw [plain'.described_eq]
    exact encode_congr call rfl rfl rfl (plain'.sentBody_eq.trans rfl)
  | ok invocation =>
    obtain ⟨distinct, short⟩ := distinct invocation parsed
    have sent := short_attachmentsOf (fun entry member _ => headers entry member) short
    have body : (carried frame).body = attach frame := if_pos carries
    have again := parse_attach parsed sent
    rw [← body] at again
    have arrived : described (carried frame) = relayed frame invocation := described_of_parse carries again
    obtain ⟨timeoutMs, className, kept⟩ := exists_relayed frame invocation
    have kind' : (relayed frame invocation).kind = frame.kind := by
      rw [kept]
      rfl
    have carries' : carriesInvocation (relayed frame invocation).kind = true := by rwa [kind']
    have sentBody' : sentBody (relayed frame invocation) = sentBody frame := by
      rw [sentBody, sentBody, if_pos carries, if_pos carries']
      exact attach_relayed carries parsed timed distinct sent
    rw [arrived]
    refine encode_congr call kind' ?_ ?_ sentBody'
    · rw [kept]
      rfl
    · rw [kept]
      rfl

/-- A call that repeats a key in its header, sets the timeout there too, and has attachments under the keys
of a leading string and of its header. -/
def crowdedCall : Frame where
  kind := .oneway
  requestId := 7
  timeoutMs := 50
  serialization := 34
  headers := [("method", "q"), ("k", "w"), ("timeout", "9"), ("k", "z")]
  body := callWith [("service", "t"), ("k", "v")]

theorem crowded_call_relayed :
    ∃ wire received, encode crowdedCall = .ok wire ∧ decode (wire ++ [1]) = .frame received [1] ∧
      encode received = .ok wire := by
  have parsed : Invocation.parse crowdedCall.body = .ok ⟨callNames, 9, [("service", "t"), ("k", "v")]⟩ :=
    eq_ok_of_toOption (by decide +kernel)
  have encoded : encode crowdedCall =
      .ok ([0xda, 0xbb, 0x82, 0, 0, 0, 0, 0, 0, 0, 0, 7, 0, 0, 0, 36] ++
        callWith [("service", "t"), ("k", "z"), ("timeout", "50")]) := eq_ok_of_toOption (by decide +kernel)
  have distinct : ∀ invocation, Invocation.parse crowdedCall.body = .ok invocation →
      (invocation.attachments.map Prod.fst).Nodup ∧ ∀ entry ∈ invocation.attachments, Short entry := by
    intro invocation again
    cases parsed.symm.trans again
    decide +kernel
  obtain ⟨received, decoded, sent⟩ := relay_sends_what_it_received crowdedCall _ [1] (.inr rfl) (by decide)
    distinct (by decide +kernel) encoded
  exact ⟨_, received, encoded, decoded, sent⟩

end RpcClient.Dubbo
