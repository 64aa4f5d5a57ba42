import RpcClient.Dubbo
import RpcClient.Proofs.Hessian.Reader
import RpcClient.Proofs.Hessian.Slots
import RpcClient.Proofs.Success

/-! The attachments of an invocation. They may be replaced without a change to what stands in front
of them, and so a frame sends its own in the place of those in its body. -/
namespace RpcClient.Dubbo
open Hessian

variable {frame : Frame} {body map : Bytes} {invocation : Invocation}
  {attachments : List (String × String)}

theorem local_readService (keys : List String) : Local 0 (readService keys) := by
  induction keys with
  | nil => exact Follows.pure []
  | cons key keys ih =>
    apply local_readString.zero.bind
    intro value
    cases value with
    | none => exact ih
    | some value => exact ih.bind fun service => Follows.pure ((key, value) :: service)

theorem local_readSignature : Local 0 readSignature :=
  (local_readService serviceKeys).bind fun service =>
    (local_readString.bind fun descriptor => Follows.pure (service, descriptor.getD "")).zero

theorem ofBytes_eq_of (data : Bytes) : Cursor.ofBytes data = .of 0 #[] data :=
  Cursor.eq_of (.ofBytes data)

/-- Reads the part in front of the attachments: the leading strings, and the place behind the arguments. -/
def readFront (body : Bytes) : Option (List (String × String) × Cursor) :=
  match readSignature (.ofBytes body) with
  | .error _ _ => none
  | .ok (service, descriptor) cursor =>
    match argumentCount? descriptor with
    | none => none
    | some count =>
      match times count skipValue cursor with
      | .error _ _ => none
      | .ok () argumentsEnd => some (service, argumentsEnd)

theorem Invocation.parse_eq_ok_iff : Invocation.parse body = .ok invocation ↔
    ∃ c c', readFront body = some (invocation.service, c) ∧ c.position = invocation.argumentsEnd ∧
      readAttachments c = .ok invocation.attachments c' ∧ c'.isEmpty = true := by
  obtain ⟨service, argumentsEnd, attachments⟩ := invocation
  rw [Invocation.parse, readFront]
  cases readSignature (.ofBytes body) with
  | error flaw cursor => simp
  | ok signature cursor =>
  dsimp only
  cases argumentCount? signature.2 with
  | none => simp
  | some count =>
  dsimp only
  cases times count skipValue cursor with
  | error flaw cursor => simp
  | ok _ behind =>
  dsimp only
  cases ended : readAttachments behind with
  | error flaw cursor => simp [ended]
  | ok inBody last =>
    dsimp only
    constructor
    · intro parsed
      split at parsed
      next done =>
        cases parsed
        exact ⟨behind, last, rfl, rfl, ended, done⟩
      next => cases parsed
    · rintro ⟨c, c', same, rfl, reads, done⟩
      cases same
      rw [ended] at reads
      cases reads
      rw [if_pos done]

/-- The front is read alike whatever stands behind it. -/
theorem exists_front {service : List (String × String)} {c : Cursor}
    (read : readFront body = some (service, c)) :
    ∃ front, body = front ++ c.rest ∧ c.position = front.length ∧
      ∀ map', readFront (front ++ map') = some (service, .of front.length c.classes map') := by
  rw [readFront, ofBytes_eq_of] at read
  split at read
  · cases read
  next service' descriptor cursor signature =>
  split at read
  · cases read
  next count counted =>
  split at read
  · cases read
  next argumentsEnd skipped =>
  cases read
  -- both parts of the front are read alike with `map'` behind them
  obtain ⟨used, classes, rest, rfl, rfl, -, signature'⟩ := local_readSignature.takes signature
  obtain ⟨used', classes', map, rfl, rfl, -, skipped'⟩ :=
    (local_skipValue.zero.times count).takes skipped
  refine ⟨used ++ used', (List.append_assoc _ _ _).symm, ?_, ?_⟩
  · rw [List.length_append]
    exact congrArg (· + used'.length) (Nat.zero_add used.length)
  · intro map'
    have again := signature' (used' ++ map')
    have again' := skipped' map'
    rw [readFront, ofBytes_eq_of, List.append_assoc]
    simp only [again, counted, again', List.length_append]
    rw [Nat.zero_add]
    rfl

/-- Where `map` is all that is left, it is read as these attachments. -/
def ReadsAs (map : Bytes) (attachments : List (String × String)) : Prop :=
  ∀ position classes, ∃ classes',
    readAttachments (.of position classes map) =
      .ok attachments (.of (position + map.length) classes' [])

/-- An invocation has a front part that is the same with any other attachments behind it. -/
theorem Invocation.exists_front (parsed : Invocation.parse body = .ok invocation) :
    ∃ front map, body = front ++ map ∧ front.length = invocation.argumentsEnd ∧
      ∀ map' attachments, ReadsAs map' attachments →
        Invocation.parse (front ++ map') = .ok { invocation with attachments } := by
  obtain ⟨c, _, read, position, -⟩ := Invocation.parse_eq_ok_iff.mp parsed
  obtain ⟨front, split, size, again⟩ := Dubbo.exists_front read
  refine ⟨front, c.rest, split, size.symm.trans position, ?_⟩
  intro map' attachments reads
  obtain ⟨classes', ended⟩ := reads front.length c.classes
  exact Invocation.parse_eq_ok_iff.mpr ⟨_, _, again map', size.symm.trans position, ended, rfl⟩

theorem readsAs_writeStringMap
    (short : ∀ entry ∈ attachments, entry.1.length ≤ 65535 ∧ entry.2.length ≤ 65535) :
    ReadsAs (writeStringMap attachments) attachments := by
  intro position classes
  have takes := takes_readStringMap position classes short []
  rw [List.append_nil] at takes
  exact ⟨classes, takes⟩

/-! ### Attachments of a frame -/

theorem length_le_put (key value : String) (entries : List (String × String)) :
    entries.length ≤ (Entries.put key value entries).length := by
  rw [Entries.put]
  induction entries with
  | nil => exact Nat.zero_le _
  | cons entry entries ih =>
    rw [Entries.alter]
    split
    · exact Nat.le_refl _
    · exact Nat.succ_le_succ ih

/-- A frame sends no fewer attachments than are in its body. -/
theorem length_le_attachmentsOf (frame : Frame) (inBody : List (String × String)) :
    inBody.length ≤ (attachmentsOf frame inBody).length := by
  have merged : ∀ own entries : List (String × String), entries.length ≤
      (own.foldl (fun entries entry => Entries.put entry.1 entry.2 entries) entries).length := by
    intro own
    induction own with
    | nil => exact fun entries => Nat.le_refl _
    | cons entry own ih =>
      intro entries
      exact Nat.le_trans (length_le_put entry.1 entry.2 entries) (ih _)
  rw [attachmentsOf]
  dsimp only
  split
  · exact Nat.le_trans (merged _ inBody) (length_le_put _ _ _)
  · exact merged _ inBody

theorem attach_of_parse (parsed : Invocation.parse frame.body = .ok invocation)
    (sent : attachmentsOf frame invocation.attachments ≠ []) :
    attach frame = frame.body.take invocation.argumentsEnd ++
      writeStringMap (attachmentsOf frame invocation.attachments) := by
  rw [attach, parsed]
  dsimp only
  rw [if_neg]
  rwa [List.isEmpty_iff]

theorem attach_of_nil (parsed : Invocation.parse frame.body = .ok invocation)
    (sent : attachmentsOf frame invocation.attachments = []) : attach frame = frame.body := by
  rw [attach, parsed]
  dsimp only
  rw [sent]
  rfl

theorem encode_of_carriesInvocation (carries : carriesInvocation frame.kind = true)
    (fits : headerSize + (attach frame).length ≤ Frame.maxSize) :
    ∃ head, head.length = headerSize ∧ encode frame = .ok (head ++ attach frame) := by
  have small := Frame.checkSize_eq_ok_iff.mpr fits
  have response : frame.isResponse = false := by
    rw [Frame.isResponse]
    cases kind : frame.kind with
    | response =>
      rw [kind] at carries
      cases carries
    | _ => rfl
  rw [encode, if_pos carries, response]
  simp only [small, bind, Except.bind]
  refine ⟨_, ?_, rfl⟩
  simp only [List.length_append, List.length_cons, Bytes.length_bigEndian]
  rfl

/-- A request that carries an invocation is sent with its attachments rewritten: what stands in front
of them keeps its bytes and its reading, and behind it stand exactly the attachments of the frame. -/
theorem attachments_rewritten (frame : Frame) (invocation : Invocation)
    (kind : frame.kind = .request ∨ frame.kind = .oneway)
    (parsed : Invocation.parse frame.body = .ok invocation)
    (short : ∀ entry ∈ attachmentsOf frame invocation.attachments,
      entry.1.length ≤ 65535 ∧ entry.2.length ≤ 65535)
    (fits : headerSize + (attach frame).length ≤ Frame.maxSize) :
    ∃ head sent, encode frame = .ok (head ++ sent) ∧ head.length = headerSize ∧
      invocation.argumentsEnd ≤ frame.body.length ∧
      frame.body.take invocation.argumentsEnd = sent.take invocation.argumentsEnd ∧
      Invocation.parse sent = .ok ⟨invocation.service, invocation.argumentsEnd,
        attachmentsOf frame invocation.attachments⟩ ∧
      (attachmentsOf frame invocation.attachments = [] → sent = frame.body) := by
  have carries : carriesInvocation frame.kind = true := by
    obtain kind | kind := kind
    all_goals
      rw [kind]
      rfl
  obtain ⟨head, size, encoded⟩ := encode_of_carriesInvocation carries fits
  obtain ⟨front, map, whole, length, again⟩ := Invocation.exists_front parsed
  have cut : frame.body.take invocation.argumentsEnd = front := by
    rw [whole, ← length, List.take_left]
  have inside : invocation.argumentsEnd ≤ frame.body.length := by
    rw [whole, ← length, List.length_append]
    exact Nat.le_add_right _ _
  refine ⟨head, attach frame, encoded, size, inside, ?_⟩
  by_cases sent : attachmentsOf frame invocation.attachments = []
  · -- nothing to send means nothing in the body either, which is passed on as it is
    have inBody : invocation.attachments = [] := by
      have fewer := length_le_attachmentsOf frame invocation.attachments
      rw [sent] at fewer
      exact List.length_eq_zero_iff.mp (Nat.le_zero.mp fewer)
    rw [attach_of_nil parsed sent, sent, parsed, ← inBody]
    exact ⟨rfl, rfl, fun _ => rfl⟩
  · rw [attach_of_parse parsed sent, cut]
    refine ⟨?_, again _ _ (readsAs_writeStringMap short), fun none => absurd none sent⟩
    rw [← length, List.take_left]

/-- A call of `m` with an object of a class that it defines, a number and an attachment. -/
def callBody : Bytes :=
  [1, 50, 1, 115, 1, 48, 1, 109, 4, 76, 65, 59, 73, 0x43, 1, 65, 0x91, 1, 120, 0x60, 0x90, 0x95,
    0x48, 1, 107, 1, 118, 0x5a]

theorem attachments_rewritten_behind_object :
    ∃ head sent, encode ⟨.request, 7, 50, "", 0, 2, [("method", "x"), ("k", "w")], callBody⟩ =
        .ok (head ++ sent) ∧
      sent.take 22 = callBody.take 22 ∧
      Invocation.parse sent = .ok ⟨[("dubbo", "2"), ("service", "s"), ("version", "0"),
        ("method", "m")], 22, [("k", "w"), ("timeout", "50")]⟩ := by
  have parsed : Invocation.parse callBody = .ok ⟨[("dubbo", "2"), ("service", "s"), ("version", "0"),
      ("method", "m")], 22, [("k", "v")]⟩ := eq_ok_of_toOption (by decide +kernel)
  obtain ⟨head, sent, encoded, -, -, front, again, -⟩ := attachments_rewritten
    ⟨.request, 7, 50, "", 0, 2, [("method", "x"), ("k", "w")], callBody⟩ _ (.inl rfl) parsed
    (by decide +kernel) (by decide +kernel)
  exact ⟨head, sent, encoded, front.symm, again⟩

end RpcClient.Dubbo
