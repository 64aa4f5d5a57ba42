import Mathlib.Algebra.Order.BigOperators.Group.List
import Mathlib.Data.List.Nodup
import Mathlib.Data.List.Pairwise
import Mathlib.Data.List.Perm.Basic
import RpcClient.Json.Decoder
import RpcClient.Proofs.Ordered
import RpcClient.Proofs.Success

/-! Decoders of a known shape, measured by the value that a draft has for those who know of none. A decoder reads a
value back when it makes the same of every draft of the value, in whatever order the members of an object stand there.
The drafts name no key twice: of members under one key the value has the last, but a record takes neither. -/
namespace RpcClient.Json

variable {α β σ : Type} {v : Json} {a : α} {room : Nat} {draft : Draft}

namespace Draft

def keys : Draft → List (Option String)
  | .object members _ => members.map Prod.fst
  | _ => []

/-- The drafts right below this one. -/
def parts : Draft → List Draft
  | .array items _ => items
  | .object members _ => members.map Prod.snd
  | _ => []

/-- No object has a key twice, here or further below. -/
inductive KeysOnce : Draft → Prop
  | intro {draft : Draft} (here : draft.keys.Nodup) (inside : ∀ part ∈ draft.parts, KeysOnce part) : KeysOnce draft

theorem KeysOnce.here (once : draft.KeysOnce) : draft.keys.Nodup := by
  cases once with | intro here inside => exact here

theorem KeysOnce.inside (once : draft.KeysOnce) : ∀ part ∈ draft.parts, part.KeysOnce := by
  cases once with | intro here inside => exact inside

theorem KeysOnce.array {items : List Draft} {end? : Option Break} (each : ∀ item ∈ items, item.KeysOnce) :
    (Draft.array items end?).KeysOnce :=
  .intro .nil each

theorem KeysOnce.object {members : List (Option String × Draft)} {end? : Option Break}
    (nodup : (members.map Prod.fst).Nodup) (each : ∀ member ∈ members, member.2.KeysOnce) :
    (Draft.object members end?).KeysOnce :=
  .intro nodup (List.forall_mem_map.mpr each)

theorem KeysOnce.of_parts_eq_nil (bare : draft.parts = []) : draft.KeysOnce := by
  refine .intro ?_ (by rw [bare]; exact List.forall_mem_nil _)
  cases draft with
  | object members end? =>
    cases List.map_eq_nil_iff.mp bare
    exact .nil
  | _ => exact .nil

end Draft

namespace Decoder

/-! ### The drafts of a value -/

theorem finish_eq_ok_iff {end? : Option Break} {u : Unit} : finish end? = .ok u ↔ end? = none := by
  cases end? <;> simp [finish]

/-- A member of an object, and the entry that it is read as. -/
def GivesEntry (room : Nat) (member : Option String × Draft) (entry : String × Json) : Prop :=
  member.1 = some entry.1 ∧ value room member.2 = .ok entry.2

/-- A draft and the value that it is read as, by the shape of both. -/
inductive Gives : Nat → Draft → Json → Prop
  | null {room : Nat} : Gives room .null .null
  | bool {room : Nat} (b : Bool) : Gives room (.bool b) (.bool b)
  | number {room : Nat} (n : Number) : Gives room (.number n) (.number n)
  | string {room : Nat} (s : String) : Gives room (.string s) (.string s)
  | array {room : Nat} {items : List Draft} {values : List Json}
      (each : List.Forall₂ (fun item v => value room item = .ok v) items values) :
      Gives (room + 1) (.array items none) (.array values)
  | object {room : Nat} {members : List (Option String × Draft)} {listed : List (String × Json)}
      (each : List.Forall₂ (GivesEntry room) members listed) :
      Gives (room + 1) (.object members none) (.object (Entries.sortedLast listed))

section
variable {ms : List (Option String × Draft)} {end? : Option Break} {listed : List (String × Json)}

theorem forall₂_of_members_value (read : members value (room + 1) (.object ms end?) = .ok listed) :
    List.Forall₂ (GivesEntry room) ms listed ∧ end? = none := by
  rw [members] at read
  obtain ⟨_, each, read⟩ := ok_of_bind_eq_ok read
  obtain ⟨_, ended, read⟩ := ok_of_bind_eq_ok read
  cases read
  refine ⟨(forall₂_of_mapM_eq_ok each).imp ?_, finish_eq_ok_iff.mp ended⟩
  rintro ⟨key, d⟩ entry read
  cases key with
  | none => cases read
  | some key =>
    change (value room d >>= fun v => .ok (key, v)) = .ok entry at read
    obtain ⟨v, found, same⟩ := ok_of_bind_eq_ok read
    cases same
    exact ⟨rfl, found⟩

theorem members_value_of_forall₂ (each : List.Forall₂ (GivesEntry room) ms listed) :
    members value (room + 1) (.object ms none) = .ok listed := by
  rw [members]
  refine bind_ok_eq_ok (mapM_eq_ok_of_forall₂ (each.imp ?_)) rfl
  rintro ⟨_, d⟩ ⟨key, v⟩ ⟨rfl, found⟩
  exact bind_ok_eq_ok found rfl

theorem value_object :
    value (room + 1) (.object ms end?) = ofMembers <$> members value (room + 1) (.object ms end?) := by
  simp [value, members]

end

theorem gives_of_value (read : value room draft = .ok v) : Gives room draft v := by
  cases draft with
  | null =>
    simp only [value, Except.ok.injEq] at read
    exact read ▸ .null
  | bool b =>
    simp only [value, Except.ok.injEq] at read
    exact read ▸ .bool b
  | number n =>
    simp only [value, Except.ok.injEq] at read
    exact read ▸ .number n
  | string s =>
    simp only [value, Except.ok.injEq] at read
    exact read ▸ .string s
  | array items end? =>
    cases room with
    | zero => cases read
    | succ below =>
      rw [value] at read
      obtain ⟨_, each, read⟩ := ok_of_bind_eq_ok read
      obtain ⟨_, ended, read⟩ := ok_of_bind_eq_ok read
      cases read
      cases finish_eq_ok_iff.mp ended
      exact .array (forall₂_of_mapM_eq_ok each)
  | object ms end? =>
    cases room with
    | zero => cases read
    | succ below =>
      rw [value_object] at read
      obtain ⟨listed, read, same⟩ := ok_of_map_eq_ok read
      obtain ⟨each, rfl⟩ := forall₂_of_members_value read
      exact same ▸ .object each
  | _ => simp [value] at read

theorem value_of_gives (gives : Gives room draft v) : value room draft = .ok v := by
  cases gives with
  | null => exact value.eq_1 _
  | bool b => exact value.eq_2 _ b
  | number n => exact value.eq_3 _ n
  | string s => exact value.eq_4 _ s
  | array each => exact bind_ok_eq_ok (mapM_eq_ok_of_forall₂ each) rfl
  | object each =>
    rw [value_object, members_value_of_forall₂ each]
    rfl

/-! ### Reading values back -/

/-- The decoder makes `a` of every draft of `v` that has no key twice. -/
def Reads (decoder : Decoder α) (v : Json) (a : α) : Prop :=
  ∀ room draft, draft.KeysOnce → value room draft = .ok v → decoder room draft = .ok a

theorem value_reads (v : Json) : value.Reads v v :=
  fun _ _ _ read => read

theorem string_reads (s : String) : string.Reads (.string s) s := by
  intro room draft _ read
  cases gives_of_value read with
  | string => exact string.eq_1 _ s

theorem natural_reads (n : Nat) : natural.Reads (.ofNat n) n := by
  intro room draft _ read
  cases gives_of_value read with
  | number => exact natural.eq_1 _ n

theorem list_reads {item : Decoder α} {toJson : α → Json} (reads : ∀ a, item.Reads (toJson a) a) (as : List α) :
    (list item).Reads (.array (as.map toJson)) as := by
  intro room draft once read
  cases gives_of_value read with
  | @array room _ _ gives =>
    rw [List.forall₂_map_right_iff] at gives
    have each := ((List.forall₂_and_left _ _).mpr ⟨once.inside, gives⟩).imp fun draft a both =>
      reads a room draft both.1 both.2
    exact bind_ok_eq_ok (mapM_eq_ok_of_forall₂ each) rfl

theorem null_reads (decoder : Decoder α) : (optional decoder).Reads .null none := by
  intro room draft _ read
  cases gives_of_value read with
  | null => exact optional.eq_1 decoder _

theorem Reads.optional {decoder : Decoder α} (reads : decoder.Reads v a) (present : v ≠ .null) :
    (optional decoder).Reads v (some a) := by
  intro room draft once read
  have other : draft ≠ .null := by
    rintro rfl
    cases gives_of_value read
    exact present rfl
  rw [Decoder.optional.eq_2 _ _ _ other, reads room draft once read]
  rfl

theorem Reads.either_inl {first : Decoder α} (reads : first.Reads v a) (second : Decoder β) :
    (either first second).Reads v (.inl a) := by
  intro room draft once read
  rw [either, read, reads room draft once read]
  rfl

theorem Reads.either_inr {second : Decoder β} {b : β} (reads : second.Reads v b) (first : Decoder α)
    (fails : ∀ {room draft}, value room draft = .ok v → ∃ fault, first room draft = .error fault) :
    (either first second).Reads v (.inr b) := by
  intro room draft once read
  obtain ⟨fault, failed⟩ := fails read
  rw [either, read, failed, reads room draft once read]
  rfl

theorem list_fails_on_object {item : Decoder α} {entries : List (String × Json)}
    (read : value room draft = .ok (.object entries)) : ∃ fault, list item room draft = .error fault := by
  cases gives_of_value read with
  | object => exact ⟨.mismatch, rfl⟩

/-! ### Records -/

/-- What the field does to a record with a draft of `v` that has no key twice. -/
def Field.Takes (field : Field σ) (v : Json) (update : σ → σ) : Prop :=
  ∀ room draft record, draft.KeysOnce → value room draft = .ok v → field.read draft record room = .ok (update record)

theorem Reads.field {decoder : Decoder α} {name : String} {set : α → σ → σ} (reads : decoder.Reads v a) :
    (field name decoder set).Takes v (set a) := by
  intro room draft record once read
  change (set · record) <$> decoder room draft = _
  rw [reads room draft once read]
  rfl

/-- The members of an object come in the order of the text, and the entries that they are read as in the order of
their keys. -/
theorem members_takes {name : String} (entries : List (String × Json)) (set : List (String × Json) → σ → σ) :
    (field name (members value) fun listed => set (Entries.sortedLast listed)).Takes (.object entries)
      (set entries) := by
  intro room draft record _ read
  cases gives_of_value read with
  | object each =>
    have success := members_value_of_forall₂ each
    change (fun listed => set (Entries.sortedLast listed) record) <$> members value _ _ = _
    rw [success]
    rfl

/-- One of the fields has the key of the entry and takes its value. -/
def TakesEntry (fields : List (Field σ)) (entry : String × Json) (update : σ → σ) : Prop :=
  ∃ field, fields.find? (·.name == entry.1) = some field ∧ field.Takes entry.2 update

theorem readMembers_takes {fields : List (Field σ)} {members : List (Option String × Draft)}
    {listed : List (String × Json)} {updates : List (σ → σ)} {seen : List String} {record : σ}
    (once : ∀ member ∈ members, member.2.KeysOnce) (gives : List.Forall₂ (GivesEntry room) members listed)
    (takes : List.Forall₂ (TakesEntry fields) listed updates) (nodup : (listed.map Prod.fst ++ seen).Nodup) :
    readMembers fields room none seen record members =
      .ok (updates.foldl (fun record update => update record) record) := by
  induction gives generalizing updates seen record with
  | nil =>
    cases takes
    rfl
  | @cons member entry _ _ gives _ ih =>
    obtain ⟨key, draft⟩ := member
    obtain ⟨rfl, read⟩ := gives
    obtain ⟨first, once⟩ := List.forall_mem_cons.mp once
    cases takes with
    | cons taken takes =>
      obtain ⟨field, found, taken⟩ := taken
      obtain ⟨new, nodup⟩ := List.nodup_cons.mp nodup
      have unseen : seen.contains entry.1 = false := by
        rw [List.contains_eq_mem, decide_eq_false_iff_not]
        exact fun old => new (List.mem_append_right _ old)
      have nodup := List.perm_middle.nodup_iff.mpr (List.nodup_cons.mpr ⟨new, nodup⟩)
      rw [readMembers, found]
      simp only [unseen, Bool.false_eq_true, if_false]
      exact bind_ok_eq_ok (taken room draft record first read) (ih once takes nodup)

theorem keys_of_forall₂ {members : List (Option String × Draft)} {listed : List (String × Json)}
    (gives : List.Forall₂ (GivesEntry room) members listed) :
    members.map Prod.fst = (listed.map Prod.fst).map some := by
  induction gives with
  | nil => rfl
  | cons first _ ih => rw [List.map_cons, first.1, ih]; rfl

/-- The fields of a record may stand in any order, as each leaves what the others have put there. -/
theorem record_reads {fields : List (Field σ)} {start : σ} {complete : σ → Option α}
    {entries : List (String × Json)} {updates : List (σ → σ)} (takes : List.Forall₂ (TakesEntry fields) entries updates)
    (commute : updates.Pairwise fun first second => ∀ record, first (second record) = second (first record))
    (completes : complete (updates.foldl (fun record update => update record) start) = some a) :
    (record fields start complete).Reads (.object entries) a := by
  intro room draft once read
  cases gives_of_value read with
  | @object _ members listed gives =>
    have nodup : (listed.map Prod.fst).Nodup := by
      have here : (members.map Prod.fst).Nodup := once.here
      rw [keys_of_forall₂ gives] at here
      exact (List.nodup_map_iff (fun _ _ => Option.some.inj)).mp here
    -- The text has the entries in an order of its own, and so the updates.
    obtain ⟨inText, taken, perm⟩ := List.perm_comp_forall₂ (Entries.sortedLast_perm nodup).symm takes
    have each : ∀ member ∈ members, member.2.KeysOnce :=
      fun member among => once.inside _ (List.mem_map_of_mem among)
    have exchange : ∀ first ∈ updates, ∀ second ∈ updates, ∀ record, second (first record) = first (second record) :=
      fun _ among _ among' => commute.forall_of_forall_of_flip (fun _ _ _ => rfl)
        (commute.imp fun same record => (same record).symm) among' among
    refine bind_ok_eq_ok (readMembers_takes each gives taken (by simpa using nodup)) ?_
    rw [← perm.symm.foldl_eq' exchange, completes]
    rfl

/-! ### Whole texts -/

theorem run_eq_ok_iff {decoder : Decoder α} {text : Bytes} :
    decoder.run text = .ok a ↔ decoder maxDepth (Json.draft text).1 = .ok a ∧ (Json.draft text).2 = false := by
  rw [run]
  obtain ⟨draft, hasMore⟩ := Json.draft text
  dsimp only
  cases decoder maxDepth draft with
  | error fault => cases hasMore <;> exact ⟨nofun, nofun⟩
  | ok read =>
    cases hasMore with
    | false => exact ⟨fun same => ⟨same, rfl⟩, And.left⟩
    | true => exact ⟨nofun, nofun⟩

theorem Reads.run {decoder : Decoder α} (reads : decoder.Reads v a) {text : Bytes}
    (once : (Json.draft text).1.KeysOnce) (parsed : Json.parse text = .ok v) : decoder.run text = .ok a := by
  obtain ⟨read, ended⟩ := run_eq_ok_iff.mp parsed
  exact run_eq_ok_iff.mpr ⟨reads _ _ once read, ended⟩

end Decoder

/-! ### Every value has a draft -/

/-- The members of every object are sorted by key, each key once. -/
inductive Ordered : Json → Prop
  | null : Ordered .null
  | bool (b : Bool) : Ordered (.bool b)
  | number (n : Number) : Ordered (.number n)
  | string (s : String) : Ordered (.string s)
  | array {items : List Json} (each : ∀ item ∈ items, Ordered item) : Ordered (.array items)
  | object {members : List (String × Json)} (here : Entries.Ordered members)
      (each : ∀ member ∈ members, Ordered member.2) : Ordered (.object members)

/-- There is room for the levels of all that are in the list where there is for those of each. -/
theorem exists_common_room {P : β → Nat → Prop} {xs : List β}
    (each : ∀ x ∈ xs, ∃ level, ∀ room ≥ level, P x room) : ∃ level, ∀ room ≥ level, ∀ x ∈ xs, P x room := by
  choose! level each using each
  refine ⟨(xs.map level).sum, fun room enough x among => each x among room ?_⟩
  exact (List.le_sum_of_mem (List.mem_map_of_mem among)).trans enough

theorem Ordered.exists_draft (ordered : v.Ordered) :
    ∃ draft : Draft, draft.KeysOnce ∧ ∃ level, ∀ room ≥ level, Decoder.value room draft = .ok v := by
  induction ordered with
  | null => exact ⟨.null, .of_parts_eq_nil rfl, 0, fun room _ => Decoder.value_of_gives .null⟩
  | bool b => exact ⟨.bool b, .of_parts_eq_nil rfl, 0, fun room _ => Decoder.value_of_gives (.bool b)⟩
  | number n => exact ⟨.number n, .of_parts_eq_nil rfl, 0, fun room _ => Decoder.value_of_gives (.number n)⟩
  | string s => exact ⟨.string s, .of_parts_eq_nil rfl, 0, fun room _ => Decoder.value_of_gives (.string s)⟩
  | @array items each ih =>
    choose! draft once fits using ih
    obtain ⟨level, fits⟩ := exists_common_room fits
    refine ⟨.array (items.map draft) none, .array (List.forall_mem_map.mpr once), level + 1, ?_⟩
    rintro (_ | room) enough
    · omega
    · refine Decoder.value_of_gives (.array (List.forall₂_map_left_iff.mpr (List.forall₂_same.mpr ?_)))
      exact fits room (by omega)
  | @object members here each ih =>
    choose! draft once fits using ih
    obtain ⟨level, fits⟩ := exists_common_room fits
    refine ⟨.object (members.map fun member => (some member.1, draft member)) none, .object ?_ ?_, level + 1, ?_⟩
    · rw [List.map_map]
      exact List.pairwise_map.mpr (here.imp fun before same => before.ne (Option.some.inj same))
    · exact List.forall_mem_map.mpr once
    · rintro (_ | room) enough
      · omega
      have gives : List.Forall₂ (Decoder.GivesEntry room)
          (members.map fun member => (some member.1, draft member)) members :=
        List.forall₂_map_left_iff.mpr <| List.forall₂_same.mpr fun member among =>
          ⟨rfl, fits room (by omega) member among⟩
      have read := Decoder.value_of_gives (.object gives)
      rwa [here.sortedLast_eq] at read

end RpcClient.Json
