import RpcClient.InvokerSettings
import RpcClient.Proofs.Json.Reading

/-! The settings of an invoker as JSON, read back. The settings of a channel stand alone or in a list. Where both are
tried, the list comes first, but settings that stand alone are an object and an object is no list. -/
namespace RpcClient

open Json.Decoder

theorem CallbackSettings.reads_toJson (settings : CallbackSettings) :
    CallbackSettings.decoder.Reads settings.toJson settings := by
  refine record_reads (.cons ⟨_, rfl, (value_reads settings.config).field⟩ <|
    .cons ⟨_, rfl, (string_reads settings.name).field⟩ .nil) ?commute ?completes
  case commute => simp
  case completes => rfl

theorem ChannelSettings.reads_toJson (settings : ChannelSettings) :
    ChannelSettings.decoder.Reads settings.toJson settings := by
  refine record_reads
    (.cons ⟨_, rfl, members_takes settings.ext fun ext r => (r.1, ({ r.2 with ext } : ChannelSettings))⟩ <|
    .cons ⟨_, rfl, (string_reads settings.listener).field⟩ <|
    .cons ⟨_, rfl, (string_reads settings.protocol).field⟩ <|
    .cons ⟨_, rfl, (natural_reads settings.size).field⟩ .nil) ?commute ?completes
  case commute => simp
  case completes => rfl

theorem ChannelChoice.reads_toJson (choice : ChannelChoice) : ChannelChoice.decoder.Reads choice.toJson choice := by
  intro room draft once read
  cases choice with
  | one settings =>
    have reads := (ChannelSettings.reads_toJson settings).either_inr (list ChannelSettings.decoder) list_fails_on_object
    exact bind_ok_eq_ok (reads room draft once read) rfl
  | many settings =>
    have reads := (list_reads ChannelSettings.reads_toJson settings).either_inl ChannelSettings.decoder
    exact bind_ok_eq_ok (reads room draft once read) rfl

theorem InvokerSettings.reads_toJson (settings : InvokerSettings) :
    InvokerSettings.decoder.Reads settings.toJson settings := by
  have callbacks := list_reads CallbackSettings.reads_toJson
  have channel : (optional ChannelChoice.decoder).Reads (settings.channel.elim .null ChannelChoice.toJson)
      settings.channel := by
    cases settings.channel with
    | none => exact null_reads _
    | some choice => exact choice.reads_toJson.optional (by cases choice <;> exact Json.noConfusion)
  refine record_reads (.cons ⟨_, rfl, (callbacks settings.afterInvoke).field⟩ <|
    .cons ⟨_, rfl, (callbacks settings.beforeInvoke).field⟩ <|
    .cons ⟨_, rfl, channel.field⟩ <|
    .cons ⟨_, rfl, (natural_reads settings.totalChannels).field⟩ .nil) ?commute ?completes
  case commute => simp
  case completes => rfl

/-! ### All settings -/

def ChannelChoice.all : ChannelChoice → List ChannelSettings
  | .one settings => [settings]
  | .many settings => settings

/-- All JSON in the settings has its members sorted by key, each key once. -/
structure InvokerSettings.Ordered (settings : InvokerSettings) : Prop where
  before : ∀ callback ∈ settings.beforeInvoke, callback.config.Ordered
  after : ∀ callback ∈ settings.afterInvoke, callback.config.Ordered
  channels : ∀ choice ∈ settings.channel, ∀ channel ∈ choice.all, (Json.object channel.ext).Ordered

theorem CallbackSettings.toJson_ordered {settings : CallbackSettings} (config : settings.config.Ordered) :
    settings.toJson.Ordered := by
  refine .object (Entries.ordered_of_keys ["config", "name"] rfl (by decide)) ?_
  simp only [List.forall_mem_cons]
  exact ⟨config, .string _, List.forall_mem_nil _⟩

theorem ChannelSettings.toJson_ordered {settings : ChannelSettings} (ext : (Json.object settings.ext).Ordered) :
    settings.toJson.Ordered := by
  refine .object (Entries.ordered_of_keys ["ext", "listener", "protocol", "size"] rfl (by decide)) ?_
  simp only [List.forall_mem_cons]
  exact ⟨ext, .string _, .string _, .number _, List.forall_mem_nil _⟩

theorem ChannelChoice.toJson_ordered {choice : ChannelChoice}
    (channels : ∀ channel ∈ choice.all, (Json.object channel.ext).Ordered) : choice.toJson.Ordered := by
  cases choice with
  | one settings => exact ChannelSettings.toJson_ordered (channels settings List.mem_cons_self)
  | many settings =>
    exact .array (List.forall_mem_map.mpr fun channel among => ChannelSettings.toJson_ordered (channels channel among))

theorem InvokerSettings.Ordered.toJson {settings : InvokerSettings} (ordered : settings.Ordered) :
    settings.toJson.Ordered := by
  have callbacks {listed : List CallbackSettings} (configs : ∀ callback ∈ listed, callback.config.Ordered) :
      (Json.array (listed.map CallbackSettings.toJson)).Ordered :=
    .array (List.forall_mem_map.mpr fun callback among => CallbackSettings.toJson_ordered (configs callback among))
  have channel : (settings.channel.elim Json.null ChannelChoice.toJson).Ordered := by
    cases chosen : settings.channel with
    | none => exact .null
    | some choice => exact ChannelChoice.toJson_ordered (ordered.channels choice chosen)
  refine .object
    (Entries.ordered_of_keys ["after_invoke", "before_invoke", "channel", "total_channels"] rfl (by decide)) ?_
  simp only [List.forall_mem_cons]
  exact ⟨callbacks ordered.after, callbacks ordered.before, channel, .number _, List.forall_mem_nil _⟩

/-- Settings come back as they were from every text that has their JSON as its value, if no object in it has a key
twice. -/
theorem InvokerSettings.read_back (settings : InvokerSettings) (ordered : settings.Ordered) :
    (∃ draft : Json.Draft, draft.KeysOnce ∧
      ∃ level, ∀ room ≥ level, Json.Decoder.value room draft = .ok settings.toJson) ∧
    (∀ room (draft : Json.Draft), draft.KeysOnce → Json.Decoder.value room draft = .ok settings.toJson →
      InvokerSettings.decoder room draft = .ok settings) ∧
    ∀ text, (Json.draft text).1.KeysOnce → Json.parse text = .ok settings.toJson →
      InvokerSettings.parse text = .ok settings := by
  refine ⟨ordered.toJson.exists_draft, settings.reads_toJson, ?_⟩
  intro text once parsed
  rw [InvokerSettings.parse, settings.reads_toJson.run once parsed]
  rfl

/-- A list of one channel, and as many replicas as 64 bits can count. -/
def InvokerSettings.sample : InvokerSettings where
  beforeInvoke := [{ name := "note", config := .object [("to", .string "log")] }]
  totalChannels := 2 ^ 64 - 1
  channel := some (.many [{ protocol := "bolt", ext := [("codec", .array [.null])] }])

/-- The sample with its fields in the order of their declaration. -/
def InvokerSettings.sampleDraft : Json.Draft :=
  .object
    [(some "before_invoke", .array [.object
        [(some "name", .string "note"), (some "config", .object [(some "to", .string "log")] none)] none] none),
      (some "after_invoke", .array [] none),
      (some "total_channels", .number (.int (2 ^ 64 - 1))),
      (some "channel", .array [.object
        [(some "protocol", .string "bolt"), (some "listener", .string ""), (some "size", .number (.int 0)),
          (some "ext", .object [(some "codec", .array [.null] none)] none)] none] none)] none

theorem InvokerSettings.sample_read_back :
    sample.Ordered ∧ InvokerSettings.decoder Json.maxDepth sampleDraft = .ok sample := by
  have ordered : sample.Ordered := by
    refine ⟨List.forall_mem_singleton.mpr ?_, List.forall_mem_nil _, ?_⟩
    · exact .object (List.pairwise_singleton _ _) (List.forall_mem_singleton.mpr (.string _))
    · rintro _ ⟨⟩
      refine List.forall_mem_singleton.mpr (.object (List.pairwise_singleton _ _) (List.forall_mem_singleton.mpr ?_))
      exact .array (List.forall_mem_singleton.mpr .null)
  have plain {d : Json.Draft} (bare : d.parts = []) : d.KeysOnce := .of_parts_eq_nil bare
  have once : sampleDraft.KeysOnce := by
    refine .object (by decide) ?_
    simp only [List.forall_mem_cons]
    refine ⟨.array (List.forall_mem_singleton.mpr (.object (by decide) ?callback)), plain rfl, plain rfl,
      .array (List.forall_mem_singleton.mpr (.object (by decide) ?channel)), List.forall_mem_nil _⟩
    case callback =>
      simp only [List.forall_mem_cons]
      exact ⟨plain rfl, .object (by decide) (List.forall_mem_singleton.mpr (plain rfl)), List.forall_mem_nil _⟩
    case channel =>
      have codec : (Json.Draft.array [.null] none).KeysOnce := .array (List.forall_mem_singleton.mpr (plain rfl))
      simp only [List.forall_mem_cons]
      exact ⟨plain rfl, plain rfl, plain rfl, .object (by decide) (List.forall_mem_singleton.mpr codec),
        List.forall_mem_nil _⟩
  have read : Json.Decoder.value Json.maxDepth sampleDraft = .ok sample.toJson := rfl
  exact ⟨ordered, (InvokerSettings.read_back sample ordered).2.1 Json.maxDepth sampleDraft once read⟩

end RpcClient
