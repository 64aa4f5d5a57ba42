import RpcClient.Proofs.Dubbo.Metadata

/-! What becomes of the attachments in a body when the frame sends its own. The map is written anew from the
strings in it: they survive, and entries with a key or a value of another kind are lost. -/
namespace RpcClient.Dubbo
open Hessian

variable {frame : Frame} {invocation : Invocation} {wire body : Bytes} {key value : String}

/-- Reads attachments of every kind, of which there are none at the end of the data. -/
def readAttachmentSlots : Read (List Slot) := do
  if (← get).isEmpty then return []
  readSlots

/-- The attachments in a body, of whatever kind. -/
def attachmentSlots? (body : Bytes) : Option (List Slot) :=
  match readFront body with
  | none => none
  | some (_, c) =>
    match readAttachmentSlots c with
    | .error _ _ => none
    | .ok slots c => if c.isEmpty then some slots else none

theorem readAttachments_eq : readAttachments = List.filterMap Slot.entry? <$> readAttachmentSlots := by
  rw [readAttachments, readAttachmentSlots, map_bind]
  refine bind_congr fun c => ?_
  split
  · rfl
  · exact readStringMap_eq

/-- The attachments of an invocation are the strings among those in its body. -/
theorem Invocation.exists_slots (parsed : Invocation.parse body = .ok invocation) :
    ∃ slots, attachmentSlots? body = some slots ∧
      slots.filterMap Slot.entry? = invocation.attachments := by
  obtain ⟨service, argumentsEnd, attachments⟩ := invocation
  obtain ⟨c, c', read, -, attachments, done⟩ := Invocation.parse_eq_ok_iff.mp parsed
  rw [readAttachments_eq, ← bind_pure_comp] at attachments
  obtain ⟨slots, c'', slotsRead, same⟩ := bind_eq_ok attachments
  cases same
  refine ⟨slots, ?_, rfl⟩
  simp only [attachmentSlots?, read, slotsRead, if_pos done]

theorem attachmentSlots?_written (parsed : Invocation.parse body = .ok invocation)
    {attachments : List (String × String)} (short : ∀ entry ∈ attachments, Short entry) :
    attachmentSlots? (body.take invocation.argumentsEnd ++ writeStringMap attachments) =
      some (attachments.map Slot.ofEntry) := by
  obtain ⟨c, _, read, position, -⟩ := Invocation.parse_eq_ok_iff.mp parsed
  obtain ⟨front, split, size, again⟩ := exists_front read
  have cut : body.take invocation.argumentsEnd = front := by
    rw [split, ← position, size, List.take_left]
  have takes := takes_readSlots front.length c.classes short []
  rw [List.append_nil] at takes
  have slots : readAttachmentSlots (.of front.length c.classes (writeStringMap attachments)) = _ := takes
  rw [cut]
  simp only [attachmentSlots?, again, slots]
  rfl

theorem drop_headerSize_of_encode (carries : carriesInvocation frame.kind = true)
    (encoded : encode frame = .ok wire) : wire.drop headerSize = attach frame := by
  obtain ⟨-, rfl⟩ := encode_eq_ok_iff.mp encoded
  rw [← length_row_fields frame, List.drop_left, sentBody, if_pos carries]

theorem values_attachmentsOf (unset : ∀ entry ∈ ownAttachments frame, entry.1 ≠ key)
    (inBody : List (String × String)) :
    Entries.values key (attachmentsOf frame inBody) = Entries.values key inBody := by
  rw [attachmentsOf_eq_putAll, Entries.values_putAll, Entries.values_eq_nil_iff.mpr unset]
  rfl

theorem mem_attachmentsOf (unset : ∀ entry ∈ ownAttachments frame, entry.1 ≠ key)
    {inBody : List (String × String)} (member : (key, value) ∈ inBody) :
    (key, value) ∈ attachmentsOf frame inBody := by
  rw [← Entries.mem_values_iff] at member ⊢
  rwa [values_attachmentsOf unset]

/-- A frame without attachments leaves the body as it is. Any other sends strings and nothing else: under
the keys that it does not set, those of the body in their order, and byte for byte the entries that stand as
they are written. -/
theorem strings_survive (frame : Frame) (invocation : Invocation)
    (kind : frame.kind = .request ∨ frame.kind = .oneway)
    (parsed : Invocation.parse frame.body = .ok invocation)
    (short : ∀ entry ∈ attachmentsOf frame invocation.attachments, Short entry)
    (encoded : encode frame = .ok wire) :
    ∃ held sent, attachmentSlots? frame.body = some held ∧
      attachmentSlots? (wire.drop headerSize) = some sent ∧
      (attachmentsOf frame invocation.attachments = [] → wire.drop headerSize = frame.body) ∧
      (attachmentsOf frame invocation.attachments ≠ [] →
        ∀ slot ∈ sent, ∃ entry, slot = Slot.ofEntry entry) ∧
      ∀ key, (∀ entry ∈ ownAttachments frame, entry.1 ≠ key) →
        Entries.values key (sent.filterMap Slot.entry?) =
          Entries.values key (held.filterMap Slot.entry?) ∧
        ∀ value, Slot.ofEntry (key, value) ∈ held → Slot.ofEntry (key, value) ∈ sent := by
  have body := drop_headerSize_of_encode (carriesInvocation_iff.mpr kind) encoded
  obtain ⟨held, heldRead, strings⟩ := Invocation.exists_slots parsed
  by_cases nothing : attachmentsOf frame invocation.attachments = []
  · rw [attach_of_nil parsed nothing] at body
    refine ⟨held, held, heldRead, body ▸ heldRead, fun _ => body, fun any => absurd nothing any, ?_⟩
    exact fun key _ => ⟨rfl, fun value here => here⟩
  · have sentRead := attachmentSlots?_written parsed short
    rw [← attach_of_parse parsed nothing, ← body] at sentRead
    refine ⟨held, _, heldRead, sentRead, fun none => absurd none nothing, ?_, ?_⟩
    · intro _ slot member
      obtain ⟨entry, -, rfl⟩ := List.mem_map.mp member
      exact ⟨entry, rfl⟩
    · intro key unset
      rw [Slot.filterMap_ofEntry, strings, values_attachmentsOf unset]
      refine ⟨rfl, fun value here => List.mem_map_of_mem (mem_attachmentsOf unset ?_)⟩
      rw [← strings]
      exact List.mem_filterMap.mpr ⟨_, here, rfl⟩

/-- A call whose body has a number and a string among its attachments. -/
def mixedCall : Frame where
  kind := .request
  headers := [("k", "v")]
  body := [1, 50, 1, 115, 1, 48, 1, 109, 0, 0x48] ++ writeString "retries" ++ [0x93] ++
    writeString "group" ++ writeString "blue" ++ [0x5a]

/-- What it sends. -/
def mixedWire : Bytes :=
  [0xda, 0xbb, 0xc0, 0, 0, 0, 0, 0, 0, 0, 0, 0, 0, 0, 0, 26] ++
    callWith [("group", "blue"), ("k", "v")]

theorem group_survives :
    ∃ sent, encode mixedCall = .ok mixedWire ∧ attachmentSlots? (mixedWire.drop headerSize) = some sent ∧
      Slot.ofEntry ("group", "blue") ∈ sent := by
  have parsed : Invocation.parse mixedCall.body = .ok ⟨callNames, 9, [("group", "blue")]⟩ :=
    eq_ok_of_toOption (by decide +kernel)
  have encoded : encode mixedCall = .ok mixedWire := eq_ok_of_toOption (by decide +kernel)
  obtain ⟨held, sent, heldRead, sentRead, -, -, kept⟩ := strings_survive mixedCall _ (.inl rfl) parsed
    (by decide +kernel) encoded
  have stands : attachmentSlots? mixedCall.body =
      some [⟨writeString "retries", some "retries", [0x93], none⟩, Slot.ofEntry ("group", "blue")] := by
    decide +kernel
  obtain rfl := Option.some.inj (heldRead.symm.trans stands)
  exact ⟨sent, encoded, sentRead, (kept "group" (by decide +kernel)).2 "blue" (.tail _ (.head _))⟩

/-- The number is lost, though the frame does not set its key. -/
theorem retries_lost :
    encode mixedCall = .ok mixedWire ∧ (∀ entry ∈ ownAttachments mixedCall, entry.1 ≠ "retries") ∧
      attachmentSlots? mixedCall.body =
        some [⟨writeString "retries", some "retries", [0x93], none⟩, Slot.ofEntry ("group", "blue")] ∧
      attachmentSlots? (mixedWire.drop headerSize) =
        some [Slot.ofEntry ("group", "blue"), Slot.ofEntry ("k", "v")] :=
  ⟨eq_ok_of_toOption (by decide +kernel), by decide +kernel, by decide +kernel, by decide +kernel⟩

end RpcClient.Dubbo
