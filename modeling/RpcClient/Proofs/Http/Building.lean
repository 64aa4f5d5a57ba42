import RpcClient.Http.Request
import RpcClient.Proofs.Entries
import RpcClient.Proofs.Success

/-! The headers of the request that is sent for a request of any protocol. Keys of a header multimap are told apart
by the size of their letters and names of headers are not, so that of several keys that are one name only one
gets through. -/
namespace RpcClient.Http.Request

variable {request : RpcClient.Request} {built : Request} {headers result entries : List (String × String)}
  {key name value contentType : String}

/-! ### The steps of building -/

theorem eq_putAll_of_copyHeaders (copied : copyHeaders headers entries = .ok result) :
    result = Entries.putAll (entries.map fun (key, value) => (lowerCase key, value)) headers := by
  induction entries generalizing headers with
  | nil =>
    cases copied
    rfl
  | cons entry entries ih =>
    obtain ⟨key, value⟩ := entry
    rw [copyHeaders] at copied
    split at copied
    · cases copied
    · split at copied
      · cases copied
      · exact ih copied

theorem eq_of_addContentType (added : addContentType contentType headers = .ok result) :
    result = if contentType = "" ∨ Entries.contains "content-type" headers = true then headers
      else Entries.put "content-type" contentType headers := by
  rw [addContentType] at added
  split at added
  · next settled =>
    cases added
    rw [if_pos (by simpa using settled)]
  · next missing =>
    split at added
    · cases added
      rw [if_neg (by simpa using missing)]
    · cases added

/-- The entries of the header that go further, each under the name that it is sent with. -/
def forwarded (request : RpcClient.Request) : List (String × String) :=
  ((request.header.erase verbKey).erase queryKey).toList.map fun (key, value) => (lowerCase key, value)

theorem headers_eq_of_build (accepted : build request = .ok built) : ∃ headers,
    addContentType request.contentType (Entries.putAll (forwarded request) []) = .ok headers ∧
    built.headers = Entries.put "id" request.id (Entries.put "host" "localhost" headers) := by
  rw [build] at accepted
  obtain ⟨method, -, accepted⟩ := ok_of_bind_eq_ok accepted
  obtain ⟨target, -, accepted⟩ := ok_of_bind_eq_ok accepted
  obtain ⟨copied, copying, accepted⟩ := ok_of_bind_eq_ok accepted
  obtain ⟨headers, adding, accepted⟩ := ok_of_bind_eq_ok accepted
  rw [eq_putAll_of_copyHeaders copying] at adding
  refine ⟨headers, adding, ?_⟩
  split at accepted
  · cases accepted
  · cases accepted
    rfl

/-! ### What stands under a name -/

/-- The value of a header that is copied or made from the content type: the last entry that has the name. -/
def ownValue? (request : RpcClient.Request) (name : String) : Option String :=
  (Entries.values name (forwarded request)).getLast?.or
    (if name = "content-type" ∧ request.contentType ≠ "" then some request.contentType else none)

theorem get?_of_addContentType
    (added : addContentType request.contentType (Entries.putAll (forwarded request) []) = .ok headers)
    (name : String) : Entries.get? name headers = ownValue? request name := by
  rw [eq_of_addContentType added, ownValue?]
  by_cases typed : name = "content-type"
  · subst typed
    cases supplied : (Entries.values "content-type" (forwarded request)).getLast? with
    | none =>
      by_cases empty : request.contentType = ""
      · simp [empty, Entries.get?_putAll_nil, supplied]
      · simp [empty, Entries.contains, Entries.get?_putAll_nil, supplied, Entries.get?_put]
    | some value => simp [Entries.contains, Entries.get?_putAll_nil, supplied]
  · have other : ¬ "content-type" = name := Ne.symm typed
    split <;> simp [typed, other, Entries.get?_put, Entries.get?_putAll_nil]

theorem get?_headers_of_build (accepted : build request = .ok built) (name : String) :
    Entries.get? name built.headers =
      if "id" = name then some request.id
      else if "host" = name then some "localhost"
      else ownValue? request name := by
  obtain ⟨headers, adding, same⟩ := headers_eq_of_build accepted
  rw [same, Entries.get?_put, Entries.get?_put, get?_of_addContentType adding]

theorem nodup_names_of_build (accepted : build request = .ok built) : (built.headers.map Prod.fst).Nodup := by
  obtain ⟨headers, adding, same⟩ := headers_eq_of_build accepted
  have empty : (([] : List (String × String)).map Prod.fst).Nodup := List.nodup_nil
  have copied := Entries.nodup_keys_putAll empty (forwarded request)
  have typed : (headers.map Prod.fst).Nodup := by
    rw [eq_of_addContentType adding]
    split
    · exact copied
    · exact Header.nodup_keys_alter _ _ copied
  rw [same]
  exact Header.nodup_keys_alter _ _ (Header.nodup_keys_alter _ _ typed)

theorem mem_headers_iff (accepted : build request = .ok built) :
    (name, value) ∈ built.headers ↔ Entries.get? name built.headers = some value :=
  ⟨Entries.get?_of_mem (nodup_names_of_build accepted), Entries.mem_of_get?⟩

/-! ### Keys and names -/

/-- The key is in the header of a request, and its value is neither the method nor the query. -/
structure Forwards (request : RpcClient.Request) (key : String) : Prop where
  present : request.header.contains key = true
  notVerb : key ≠ verbKey
  notQuery : key ≠ queryKey

theorem mem_forwarded_iff : (name, value) ∈ forwarded request ↔
    ∃ key, Forwards request key ∧ lowerCase key = name ∧ request.header.get key = value := by
  have entry (key : String) : (key, value) ∈ ((request.header.erase verbKey).erase queryKey).toList ↔
      Forwards request key ∧ request.header.get key = value := by
    rw [Header.mem_toList_iff, Header.contains_erase, Header.contains_erase]
    simp only [Bool.and_eq_true, bne_iff_ne]
    constructor
    · rintro ⟨⟨⟨present, notVerb⟩, notQuery⟩, same⟩
      rw [Header.get_erase_of_ne notQuery, Header.get_erase_of_ne notVerb] at same
      exact ⟨⟨present, notVerb, notQuery⟩, same⟩
    · rintro ⟨⟨present, notVerb, notQuery⟩, same⟩
      rw [Header.get_erase_of_ne notQuery, Header.get_erase_of_ne notVerb]
      exact ⟨⟨⟨present, notVerb⟩, notQuery⟩, same⟩
  rw [forwarded, List.mem_map]
  constructor
  · rintro ⟨⟨key, value'⟩, member, same⟩
    cases same
    obtain ⟨forwards, same⟩ := (entry key).mp member
    exact ⟨key, forwards, rfl, same⟩
  · rintro ⟨key, forwards, rfl, same⟩
    exact ⟨(key, value), (entry key).mpr ⟨forwards, same⟩, rfl⟩

theorem values_forwarded_eq_nil_iff :
    Entries.values name (forwarded request) = [] ↔ ∀ key, Forwards request key → lowerCase key ≠ name := by
  rw [Entries.values_eq_nil_iff]
  constructor
  · intro none key forwards
    exact none (lowerCase key, request.header.get key) (mem_forwarded_iff.mpr ⟨key, forwards, rfl, rfl⟩)
  · rintro none ⟨name', value⟩ member
    obtain ⟨key, forwards, rfl, -⟩ := mem_forwarded_iff.mp member
    exact none key forwards

/-- A copied header holds the value of a key that differs from its name in nothing but the size of letters. -/
theorem exists_of_getLast?_forwarded (last : (Entries.values name (forwarded request)).getLast? = some value) :
    ∃ key, Forwards request key ∧ lowerCase key = name ∧ request.header.get key = value :=
  mem_forwarded_iff.mp (Entries.mem_values_iff.mp (List.mem_of_getLast? last))

/-- What the headers of the request that is sent hold. -/
structure Sends (request : RpcClient.Request) (headers : List (String × String)) : Prop where
  once : (headers.map Prod.fst).Nodup
  host : ("host", "localhost") ∈ headers
  id : ("id", request.id) ∈ headers
  /-- A key is sent with its value if no other key is the same name. -/
  copied : ∀ key, Forwards request key → lowerCase key ≠ "host" → lowerCase key ≠ "id" →
    (∀ other, Forwards request other → lowerCase other = lowerCase key → other = key) →
    (lowerCase key, request.header.get key) ∈ headers
  /-- Of several keys that are one name, one is sent. -/
  shared : ∀ key, Forwards request key → lowerCase key ≠ "host" → lowerCase key ≠ "id" →
    ∃ other, Forwards request other ∧ lowerCase other = lowerCase key ∧
      (lowerCase key, request.header.get other) ∈ headers
  contentType : request.contentType ≠ "" → (∀ key, Forwards request key → lowerCase key ≠ "content-type") →
    ("content-type", request.contentType) ∈ headers
  nothingElse : ∀ name value, (name, value) ∈ headers →
    (name = "host" ∧ value = "localhost") ∨ (name = "id" ∧ value = request.id) ∨
    (∃ key, Forwards request key ∧ lowerCase key = name ∧ request.header.get key = value) ∨
    (name = "content-type" ∧ value = request.contentType ∧ value ≠ "" ∧
      ∀ key, Forwards request key → lowerCase key ≠ "content-type")

theorem shared_of_build (accepted : build request = .ok built) (forwards : Forwards request key)
    (notHost : lowerCase key ≠ "host") (notId : lowerCase key ≠ "id") :
    ∃ other, Forwards request other ∧ lowerCase other = lowerCase key ∧
      (lowerCase key, request.header.get other) ∈ built.headers := by
  cases last : (Entries.values (lowerCase key) (forwarded request)).getLast? with
  | none =>
    have none := values_forwarded_eq_nil_iff.mp (List.getLast?_eq_none_iff.mp last)
    exact (none key forwards rfl).elim
  | some value =>
    obtain ⟨other, forwards', sameName, rfl⟩ := exists_of_getLast?_forwarded last
    refine ⟨other, forwards', sameName, ?_⟩
    rw [mem_headers_iff accepted, get?_headers_of_build accepted, if_neg (Ne.symm notId), if_neg (Ne.symm notHost),
      ownValue?, last, Option.some_or]

/-- Every key of a header but those of the method and the query, and those that are the names `host` and `id`, is
sent under its name in small letters. It has its own value unless another key is the same name. -/
theorem headers_sent (accepted : build request = .ok built) : Sends request built.headers where
  once := nodup_names_of_build accepted
  host := by
    rw [mem_headers_iff accepted, get?_headers_of_build accepted, if_neg (by decide), if_pos rfl]
  id := by rw [mem_headers_iff accepted, get?_headers_of_build accepted, if_pos rfl]
  copied key forwards notHost notId alone := by
    obtain ⟨other, forwards', sameName, sent⟩ := shared_of_build accepted forwards notHost notId
    rwa [alone other forwards' sameName] at sent
  shared key forwards notHost notId := shared_of_build accepted forwards notHost notId
  contentType given none := by
    rw [mem_headers_iff accepted, get?_headers_of_build accepted, if_neg (by decide), if_neg (by decide), ownValue?,
      values_forwarded_eq_nil_iff.mpr none, if_pos ⟨rfl, given⟩]
    rfl
  nothingElse name value member := by
    rw [mem_headers_iff accepted, get?_headers_of_build accepted] at member
    split at member
    · next same => exact .inr (.inl ⟨same.symm, (Option.some.inj member).symm⟩)
    · split at member
      · next same => exact .inl ⟨same.symm, (Option.some.inj member).symm⟩
      · rw [ownValue?, Option.or_eq_some_iff] at member
        rcases member with last | ⟨absent, made⟩
        · exact .inr (.inr (.inl (exists_of_getLast?_forwarded last)))
        · obtain ⟨⟨rfl, given⟩, same⟩ := Option.ite_none_right_eq_some.mp made
          cases same
          exact .inr (.inr (.inr ⟨rfl, rfl, given,
            values_forwarded_eq_nil_iff.mp (List.getLast?_eq_none_iff.mp absent)⟩))

/-- A request with keys that are the names of other headers in letters of another size, and one that is not. -/
def dressedRequest : RpcClient.Request where
  id := "7"
  method := "m"
  contentType := "text/plain"
  header := .ofList [("verb", "PUT"), ("Verb", "up"), ("X-A", "1"), ("HOST", "there"), ("X-A", "2")]

theorem dressed_headers_sent : ∃ built, build dressedRequest = .ok built ∧ Sends dressedRequest built.headers ∧
    built.headers = [("verb", "up"), ("x-a", "1,2"), ("host", "localhost"), ("content-type", "text/plain"),
      ("id", "7")] := by
  have accepted : build dressedRequest = .ok ⟨"PUT", "/m", [("verb", "up"), ("x-a", "1,2"), ("host", "localhost"),
      ("content-type", "text/plain"), ("id", "7")], []⟩ := eq_ok_of_toOption (by decide +kernel)
  exact ⟨_, accepted, headers_sent accepted, rfl⟩

/-- A request with two keys that are one name. -/
def clashingRequest : RpcClient.Request where
  id := "1"
  method := "m"
  header := .ofList [("X-A", "1"), ("x-a", " 1")]

theorem build_clashingRequest :
    build clashingRequest = .ok ⟨"GET", "/m", [("x-a", " 1"), ("host", "localhost"), ("id", "1")], []⟩ := by
  have method : methodOf clashingRequest = .ok "GET" := eq_ok_of_toOption (by decide +kernel)
  have target : Http.target (targetText clashingRequest) = .ok "/m" := eq_ok_of_toOption (by decide +kernel)
  have copied :
      copyHeaders [] ((clashingRequest.header.erase verbKey).erase queryKey).toList = .ok [("x-a", " 1")] := by
    have entries : ((clashingRequest.header.erase verbKey).erase queryKey).toList = [("X-A", "1"), ("x-a", " 1")] := by
      decide +kernel
    have upper : isHeaderName "X-A" = true ∧ isHeaderValue "1" = true ∧ lowerCase "X-A" = "x-a" := by decide +kernel
    have lower : isHeaderName "x-a" = true ∧ isHeaderValue " 1" = true ∧ lowerCase "x-a" = "x-a" := by decide +kernel
    simp [entries, copyHeaders, upper, lower, Entries.put, Entries.alter]
  rw [build, method, copied]
  simp only [target]
  exact eq_ok_of_toOption (by decide +kernel)

/-- The value under one of two keys is not sent, although the request is accepted. -/
theorem clashing_key_lost : ∃ built, build clashingRequest = .ok built ∧ Forwards clashingRequest "X-A" ∧
    clashingRequest.header.get "X-A" = "1" ∧ (lowerCase "X-A", "1") ∉ built.headers :=
  ⟨_, build_clashingRequest, ⟨by decide, by decide, by decide⟩, by decide, by decide +kernel⟩

end RpcClient.Http.Request
