import RpcClient.Proofs.Dubbo.RoundTrip

/-! What sender and receiver read off a request that carries an invocation. Both merge the leading strings
of its body, its attachments and the header entries of the caller, but not in the same way: attachments
that stand more than once, or under the key of a leading string, reach the receiver in the place of what
the sender holds. -/
namespace RpcClient.Dubbo
open Hessian

variable {request : Request} {frame : Frame} {invocation : Invocation} {wire body : Bytes} {key : String}

/-- Whether key and value can each be written as one string. -/
def Short (entry : String × String) : Prop :=
  entry.1.length ≤ 65535 ∧ entry.2.length ≤ 65535

instance (entry : String × String) : Decidable (Short entry) :=
  inferInstanceAs (Decidable (_ ∧ _))

/-! ### Leading strings -/

theorem key_mem_of_readService {keys : List String} {service : List (String × String)}
    {cursor cursor' : Cursor} (read : readService keys cursor = .ok service cursor') :
    ∀ entry ∈ service, entry.1 ∈ keys := by
  induction keys generalizing cursor service with
  | nil =>
    cases read
    exact nofun
  | cons key keys ih =>
    obtain ⟨value, behind, -, read⟩ := bind_eq_ok read
    cases value with
    | none => exact fun entry member => .tail _ (ih read entry member)
    | some value =>
      obtain ⟨others, _, read, last⟩ := bind_eq_ok read
      cases last
      intro entry member
      cases member with
      | head => exact List.mem_cons_self
      | tail _ member => exact .tail _ (ih read entry member)

theorem Invocation.key_mem_serviceKeys (parsed : Invocation.parse body = .ok invocation) :
    ∀ entry ∈ invocation.service, entry.1 ∈ serviceKeys := by
  obtain ⟨_, _, front, -⟩ := Invocation.parse_eq_ok_iff.mp parsed
  rw [readFront] at front
  split at front
  · cases front
  next service descriptor cursor signature =>
  obtain ⟨service', behind, read, rest⟩ := bind_eq_ok signature
  obtain ⟨descriptor', _, -, same⟩ := bind_eq_ok rest
  cases same
  split at front
  · cases front
  split at front
  · cases front
  · cases front
    exact key_mem_of_readService read

theorem Invocation.values_service (parsed : Invocation.parse body = .ok invocation)
    (other : key ∉ serviceKeys) : Entries.values key invocation.service = [] := by
  rw [Entries.values_eq_nil_iff]
  rintro entry member rfl
  exact other (Invocation.key_mem_serviceKeys parsed entry member)

/-! ### The frame of a request -/

theorem foldl_setHeader (own : List (String × String)) (frame : Frame) :
    own.foldl (fun frame (key, value) => frame.setHeader key value) frame =
      { frame with headers := Entries.putAll own frame.headers } := by
  induction own generalizing frame with
  | nil => rfl
  | cons entry own ih => exact ih _

theorem toFrame_of_parse (parsed : Invocation.parse request.data = .ok invocation) :
    toFrame request = {
      kind := .request
      timeoutMs := request.timeoutMs
      className := (Entries.get? serviceKey (invocation.service ++ invocation.attachments)).getD ""
      serialization := hessianSerialization
      headers := Entries.putAll request.header.toList (invocation.service ++ invocation.attachments)
      body := request.data } := by
  rw [toFrame, parsed]
  exact foldl_setHeader _ _

/-! ### Attachments of a frame -/

/-- The timeout of a frame as attachments: one, or none if it is not set. -/
def timeoutAttachments (frame : Frame) : List (String × String) :=
  if frame.timeoutMs > 0 then [(timeoutKey, toString frame.timeoutMs.toNat)] else []

/-- What a frame puts among the attachments. -/
def ownAttachments (frame : Frame) : List (String × String) :=
  frame.headers.filter (fun entry => !serviceKeys.contains entry.1) ++ timeoutAttachments frame

theorem attachmentsOf_eq_putAll (frame : Frame) (inBody : List (String × String)) :
    attachmentsOf frame inBody = Entries.putAll (ownAttachments frame) inBody := by
  rw [ownAttachments, timeoutAttachments, Entries.putAll, List.foldl_append, attachmentsOf]
  split
  · rfl
  · rfl

theorem eq_of_mem_timeoutAttachments {entry : String × String}
    (member : entry ∈ timeoutAttachments frame) :
    entry = (timeoutKey, toString frame.timeoutMs.toNat) := by
  rw [timeoutAttachments] at member
  split at member
  · exact List.mem_singleton.mp member
  · cases member

theorem values_ownAttachments_of_mem (service : key ∈ serviceKeys) (frame : Frame) :
    Entries.values key (ownAttachments frame) = [] := by
  rw [Entries.values_eq_nil_iff]
  rintro entry member rfl
  obtain header | timeout := List.mem_append.mp member
  · have other := (List.mem_filter.mp header).2
    rw [List.contains_iff_mem.mpr service] at other
    cases other
  · have other : timeoutKey ∉ serviceKeys := by decide
    rw [eq_of_mem_timeoutAttachments timeout] at service
    exact other service

theorem values_ownAttachments (other : key ∉ serviceKeys) (untimed : key ≠ timeoutKey) (frame : Frame) :
    Entries.values key (ownAttachments frame) = Entries.values key frame.headers := by
  have timeouts : Entries.values key (timeoutAttachments frame) = [] := by
    rw [Entries.values_eq_nil_iff]
    rintro entry member rfl
    rw [eq_of_mem_timeoutAttachments member] at untimed
    exact untimed rfl
  have passes : (!serviceKeys.contains key) = true := by
    rw [Bool.not_eq_true', ← Bool.not_eq_true, List.contains_iff_mem]
    exact other
  rw [ownAttachments, Entries.values_append, timeouts, List.append_nil]
  exact Entries.values_filter (p := fun key => !serviceKeys.contains key) passes frame.headers

theorem length_toString_le (n : UInt32) : (toString n.toNat).length ≤ 10 := by
  rw [Nat.toString_eq_repr, Nat.repr, String.length_ofList,
    Nat.length_toDigits_le_iff (by decide) (by decide)]
  exact Nat.lt_trans n.toNat_lt (by decide)

theorem short_attachmentsOf {inBody : List (String × String)}
    (headers : ∀ entry ∈ frame.headers, entry.1 ∉ serviceKeys → Short entry)
    (attachments : ∀ entry ∈ inBody, Short entry) :
    ∀ entry ∈ attachmentsOf frame inBody, Short entry := by
  rw [attachmentsOf_eq_putAll]
  intro entry member
  obtain own | inBody := Entries.mem_putAll member
  · obtain header | timeout := List.mem_append.mp own
    · obtain ⟨header, other⟩ := List.mem_filter.mp header
      refine headers entry header fun service => ?_
      rw [List.contains_iff_mem.mpr service] at other
      cases other
    · have key : timeoutKey.length ≤ 65535 := by decide
      rw [eq_of_mem_timeoutAttachments timeout]
      exact ⟨key, Nat.le_trans (length_toString_le _) (by decide)⟩
  · exact attachments entry inBody

theorem short_attachmentsOf_toFrame (parsed : Invocation.parse request.data = .ok invocation)
    (headers : ∀ entry ∈ request.header.toList, Short entry)
    (attachments : ∀ entry ∈ invocation.attachments, Short entry) :
    ∀ entry ∈ attachmentsOf (toFrame request) invocation.attachments, Short entry := by
  refine short_attachmentsOf (fun entry header other => ?_) attachments
  rw [toFrame_of_parse parsed] at header
  obtain caller | described := Entries.mem_putAll header
  · exact headers entry caller
  · obtain service | inBody := List.mem_append.mp described
    · exact absurd (Invocation.key_mem_serviceKeys parsed entry service) other
    · exact attachments entry inBody

/-! ### The frame that arrives -/

theorem parse_attach (parsed : Invocation.parse frame.body = .ok invocation)
    (short : ∀ entry ∈ attachmentsOf frame invocation.attachments, Short entry) :
    Invocation.parse (attach frame) = .ok { invocation with
      attachments := attachmentsOf frame invocation.attachments } := by
  by_cases sent : attachmentsOf frame invocation.attachments = []
  · have inBody : invocation.attachments = [] := by
      have fewer := length_le_attachmentsOf frame invocation.attachments
      rw [sent] at fewer
      exact List.length_eq_zero_iff.mp (Nat.le_zero.mp fewer)
    rw [attach_of_nil parsed sent, sent, parsed, ← inBody]
  · obtain ⟨front, map, whole, length, again⟩ := Invocation.exists_front parsed
    have cut : frame.body.take invocation.argumentsEnd = front := by
      rw [whole, ← length, List.take_left]
    rw [attach_of_parse parsed sent, cut]
    exact again _ _ (readsAs_writeStringMap short)

/-- Under any key but that of the timeout the receiver finds the last attachment that was sent, and
without one the leading string. -/
theorem Invocation.get?_headers (untimed : key ≠ timeoutKey) (invocation : Invocation) :
    Entries.get? key invocation.headers =
      (Entries.values key invocation.attachments).getLast?.or (Entries.get? key invocation.service) := by
  have passes : decide (key ≠ timeoutKey) = true := decide_eq_true untimed
  have kept : Entries.values key (Entries.remove timeoutKey invocation.attachments) =
      Entries.values key invocation.attachments :=
    Entries.values_filter (p := fun key => decide (key ≠ timeoutKey)) passes _
  rw [Entries.get?_eq_head?_values, Invocation.headers, Entries.values_putAll, kept,
    Entries.get?_eq_head?_values]
  cases (Entries.values key invocation.attachments).getLast? with
  | none => rfl
  | some value => rfl

/-- What arrives of a request that carries an invocation. -/
theorem received_of_parse (parsed : Invocation.parse request.data = .ok invocation)
    (headers : ∀ entry ∈ request.header.toList, Short entry)
    (attachments : ∀ entry ∈ invocation.attachments, Short entry)
    (encoded : encode (toFrame request) = .ok wire) (rest : Bytes) :
    ∃ received, decode (wire ++ rest) = .frame received rest ∧
      (∀ key ≠ timeoutKey, received.header? key =
        (Entries.values key (attachmentsOf (toFrame request) invocation.attachments)).getLast?.or
          (Entries.get? key invocation.service)) ∧
      received.className = (received.header? serviceKey).getD "" := by
  have body : (toFrame request).body = request.data := by rw [toFrame_of_parse parsed]
  have kind : (toFrame request).kind = .request := by rw [toFrame_of_parse parsed]
  have carries : carriesInvocation (toFrame request).kind = true := by
    rw [kind]
    rfl
  have sent : (carried (toFrame request)).body = attach (toFrame request) := by
    rw [carried, sentBody, if_pos carries]
  have again := parse_attach (body ▸ parsed) (short_attachmentsOf_toFrame parsed headers attachments)
  rw [← sent] at again
  have described : described (carried (toFrame request)) = withInvocation _ _ :=
    described_of_parse carries again
  obtain ⟨timeoutMs, received⟩ := exists_withInvocation (carried (toFrame request)) { invocation with
    attachments := attachmentsOf (toFrame request) invocation.attachments }
  refine ⟨_, decode_encode encoded rest, ?_, ?_⟩
  · intro key untimed
    rw [described, received, Frame.header?]
    exact Invocation.get?_headers untimed _
  · rw [described, received]
    rfl

/-! ### Header entries of the caller -/

/-- The receiver finds the value of the caller, unless the body holds further attachments under the key:
the caller's value takes the place of the first of them only, and the last one is found. -/
theorem caller_header_received (request : Request) (invocation : Invocation) (key : String)
    (rest : Bytes)
    (parsed : Invocation.parse request.data = .ok invocation)
    (headers : ∀ entry ∈ request.header.toList, Short entry)
    (attachments : ∀ entry ∈ invocation.attachments, Short entry)
    (encoded : encode (toFrame request) = .ok wire)
    (held : request.header.contains key = true) (other : key ∉ serviceKeys) (untimed : key ≠ timeoutKey) :
    ∃ received, decode (wire ++ rest) = .frame received rest ∧
      received.header? key =
        some ((Entries.values key invocation.attachments).tail.getLast?.getD (request.header.get key)) ∧
      ((Entries.values key invocation.attachments).length ≤ 1 →
        received.header? key = some (request.header.get key)) := by
  obtain ⟨received, decoded, found, -⟩ := received_of_parse parsed headers attachments encoded rest
  have own : Entries.values key (ownAttachments (toFrame request)) =
      request.header.get key :: (Entries.values key invocation.attachments).tail := by
    rw [values_ownAttachments other untimed, toFrame_of_parse parsed]
    dsimp only
    rw [Entries.values_putAll, Header.values_toList, if_pos held, Entries.values_append,
      Invocation.values_service parsed other]
    rfl
  have last : received.header? key =
      some ((Entries.values key invocation.attachments).tail.getLast?.getD (request.header.get key)) := by
    rw [found key untimed, attachmentsOf_eq_putAll, Entries.values_putAll, own, List.getLast?_cons]
    dsimp only
    rw [List.getLast?_cons]
    cases (Entries.values key invocation.attachments).tail.getLast? with
    | none => rfl
    | some value => rfl
  refine ⟨received, decoded, last, ?_⟩
  intro single
  have none : (Entries.values key invocation.attachments).tail = [] := by
    rw [← List.length_eq_zero_iff, List.length_tail]
    omega
  rw [last, none]
  rfl

/-- The body of a call of `m` without arguments. -/
def callWith (attachments : List (String × String)) : Bytes :=
  [1, 50, 1, 115, 1, 48, 1, 109, 0] ++ writeStringMap attachments

/-- The leading strings of such a body. -/
def callNames : List (String × String) :=
  [("dubbo", "2"), ("service", "s"), ("version", "0"), ("method", "m")]

/-- A request whose body has an attachment under the key of one of its header entries. -/
def overridingRequest : Request where
  header := .ofList [("k", "v"), ("k", "w")]
  data := callWith [("g", "b"), ("k", "a")]

theorem caller_header_overrides_attachment :
    ∃ wire received, encode (toFrame overridingRequest) = .ok wire ∧
      decode (wire ++ [7]) = .frame received [7] ∧ received.header? "k" = some "v,w" := by
  have parsed : Invocation.parse overridingRequest.data =
      .ok ⟨callNames, 9, [("g", "b"), ("k", "a")]⟩ := eq_ok_of_toOption (by decide +kernel)
  have encoded : encode (toFrame overridingRequest) =
      .ok ([0xda, 0xbb, 0xc2, 0, 0, 0, 0, 0, 0, 0, 0, 0, 0, 0, 0, 21] ++
        callWith [("g", "b"), ("k", "v,w")]) := eq_ok_of_toOption (by decide +kernel)
  obtain ⟨received, decoded, -, found⟩ := caller_header_received overridingRequest _ "k" [7] parsed
    (by decide +kernel) (by decide +kernel) encoded (by decide +kernel) (by decide) (by decide)
  exact ⟨_, received, encoded, decoded, found (by decide +kernel)⟩

/-- A request whose body has two attachments under the key of its header entry. -/
def repeatingRequest : Request where
  header := .ofList [("k", "v")]
  data := callWith [("k", "a"), ("k", "b")]

theorem repeated_attachment_hides_caller_header :
    ∃ wire received,
      Invocation.parse repeatingRequest.data = .ok ⟨callNames, 9, [("k", "a"), ("k", "b")]⟩ ∧
      encode (toFrame repeatingRequest) = .ok wire ∧ decode wire = .frame received [] ∧
      repeatingRequest.header.get "k" = "v" ∧ received.header? "k" = some "b" := by
  have parsed : Invocation.parse repeatingRequest.data = .ok ⟨callNames, 9, [("k", "a"), ("k", "b")]⟩ :=
    eq_ok_of_toOption (by decide +kernel)
  have encoded : encode (toFrame repeatingRequest) =
      .ok ([0xda, 0xbb, 0xc2, 0, 0, 0, 0, 0, 0, 0, 0, 0, 0, 0, 0, 19] ++
        callWith [("k", "b"), ("k", "b")]) := eq_ok_of_toOption (by decide +kernel)
  have decoded : decode ([0xda, 0xbb, 0xc2, 0, 0, 0, 0, 0, 0, 0, 0, 0, 0, 0, 0, 19] ++
        callWith [("k", "b"), ("k", "b")]) =
      .frame ⟨.request, 0, 0, "s", 0, 2, callNames ++ [("k", "b")],
        callWith [("k", "b"), ("k", "b")]⟩ [] := by
    decide +kernel
  exact ⟨_, _, parsed, encoded, decoded, by decide +kernel, by decide⟩

/-! ### Leading strings on both sides -/

/-- The sender tells the leading strings of the body. The receiver tells them too, unless the body holds
attachments under their keys: then it tells the last of those. -/
theorem service_sent_and_received (request : Request) (invocation : Invocation)
    (protocol path version method : String) (rest : Bytes)
    (parsed : Invocation.parse request.data = .ok invocation)
    (named : invocation.service =
      [("dubbo", protocol), ("service", path), ("version", version), ("method", method)])
    (own : ∀ key ∈ serviceKeys, request.header.contains key = false)
    (headers : ∀ entry ∈ request.header.toList, Short entry)
    (attachments : ∀ entry ∈ invocation.attachments, Short entry)
    (encoded : encode (toFrame request) = .ok wire) :
    ((toFrame request).className = path ∧
      ∀ entry ∈ invocation.service, (toFrame request).header? entry.1 = some entry.2) ∧
    ∃ received, decode (wire ++ rest) = .frame received rest ∧
      received.className = (Entries.values "service" invocation.attachments).getLast?.getD path ∧
      ∀ entry ∈ invocation.service, received.header? entry.1 =
        some ((Entries.values entry.1 invocation.attachments).getLast?.getD entry.2) := by
  have leading : ∀ entry ∈ invocation.service,
      Entries.get? entry.1 invocation.service = some entry.2 := by
    rw [named]
    simp only [List.forall_mem_cons, List.not_mem_nil, false_implies, implies_true, and_true]
    exact ⟨rfl, rfl, rfl, rfl⟩
  have path' : (serviceKey, path) ∈ invocation.service := by
    rw [named]
    exact .tail _ (.head _)
  have sent : ∀ key ∈ serviceKeys, (toFrame request).header? key =
      Entries.get? key (invocation.service ++ invocation.attachments) := by
    intro key service
    rw [toFrame_of_parse parsed, Frame.header?, Entries.get?_eq_head?_values, Entries.values_putAll,
      Header.values_toList, own key service]
    exact (Entries.get?_eq_head?_values _ _).symm
  have described : ∀ entry ∈ invocation.service,
      Entries.get? entry.1 (invocation.service ++ invocation.attachments) = some entry.2 := by
    intro entry member
    rw [Entries.get?_append, leading entry member]
    rfl
  obtain ⟨received, decoded, found, className⟩ :=
    received_of_parse parsed headers attachments encoded rest
  have last : ∀ entry ∈ invocation.service, received.header? entry.1 =
      some ((Entries.values entry.1 invocation.attachments).getLast?.getD entry.2) := by
    intro entry member
    have service := Invocation.key_mem_serviceKeys parsed entry member
    have untimed : entry.1 ≠ timeoutKey := by
      intro timeout
      rw [timeout] at service
      exact absurd service (by decide)
    rw [found _ untimed, attachmentsOf_eq_putAll, Entries.values_putAll,
      values_ownAttachments_of_mem service, leading entry member]
    dsimp only [List.getLast?_nil]
    cases (Entries.values entry.1 invocation.attachments).getLast? with
    | none => rfl
    | some value => rfl
  refine ⟨⟨?_, ?_⟩, received, decoded, ?_, last⟩
  · rw [toFrame_of_parse parsed]
    dsimp only
    rw [described _ path']
    rfl
  · intro entry member
    rw [sent _ (Invocation.key_mem_serviceKeys parsed entry member), described entry member]
  · rw [className, last _ path']
    rfl

/-- A request whose body has an attachment under no key of a leading string. -/
def groupedRequest : Request where
  header := .ofList [("k", "v")]
  data := callWith [("group", "blue")]

theorem service_agreed_beside_group :
    ∃ wire received, encode (toFrame groupedRequest) = .ok wire ∧
      decode (wire ++ [7]) = .frame received [7] ∧ (toFrame groupedRequest).className = "s" ∧
      received.className = "s" ∧ received.header? "method" = some "m" := by
  have parsed : Invocation.parse groupedRequest.data = .ok ⟨callNames, 9, [("group", "blue")]⟩ :=
    eq_ok_of_toOption (by decide +kernel)
  have encoded : encode (toFrame groupedRequest) =
      .ok ([0xda, 0xbb, 0xc2, 0, 0, 0, 0, 0, 0, 0, 0, 0, 0, 0, 0, 26] ++
        callWith [("group", "blue"), ("k", "v")]) := eq_ok_of_toOption (by decide +kernel)
  obtain ⟨⟨className, -⟩, received, decoded, className', found⟩ := service_sent_and_received
    groupedRequest _ "2" "s" "0" "m" [7] parsed rfl (by decide +kernel) (by decide +kernel)
    (by decide +kernel) encoded
  exact ⟨_, received, encoded, decoded, className, className', found ("method", "m") (by decide)⟩

/-- A request whose body has an attachment under the key of its service path. -/
def disguisedRequest : Request where
  data := callWith [("service", "x")]

theorem attachment_hides_service :
    ∃ wire received,
      Invocation.parse disguisedRequest.data = .ok ⟨callNames, 9, [("service", "x")]⟩ ∧
      encode (toFrame disguisedRequest) = .ok wire ∧ decode wire = .frame received [] ∧
      (toFrame disguisedRequest).className = "s" ∧ received.className = "x" ∧
      received.header? "service" = some "x" := by
  have parsed : Invocation.parse disguisedRequest.data = .ok ⟨callNames, 9, [("service", "x")]⟩ :=
    eq_ok_of_toOption (by decide +kernel)
  have encoded : encode (toFrame disguisedRequest) =
      .ok ([0xda, 0xbb, 0xc2, 0, 0, 0, 0, 0, 0, 0, 0, 0, 0, 0, 0, 21] ++ callWith [("service", "x")]) :=
    eq_ok_of_toOption (by decide +kernel)
  have decoded : decode ([0xda, 0xbb, 0xc2, 0, 0, 0, 0, 0, 0, 0, 0, 0, 0, 0, 0, 21] ++
        callWith [("service", "x")]) =
      .frame ⟨.request, 0, 0, "x", 0, 2,
        [("dubbo", "2"), ("service", "x"), ("version", "0"), ("method", "m")],
        callWith [("service", "x")]⟩ [] := by
    decide +kernel
  exact ⟨_, _, parsed, encoded, decoded, by decide +kernel, rfl, rfl⟩

end RpcClient.Dubbo
