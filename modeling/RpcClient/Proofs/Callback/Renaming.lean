import RpcClient.Callback
import RpcClient.Proofs.Ordered
import RpcClient.Proofs.Success

/-! Renaming of header keys. The renames of a configuration run one after another on one header, so that a value
may move several times, or move and come back. None is lost or doubled on the way. Where no new key is an old
one as well, each value moves at most once, and what stands where follows from the configuration alone. -/
namespace RpcClient

namespace Entries

variable {α : Type} {entries : List (String × α)}

/-- What stands under a key, and then the rest. -/
theorem perm_remove {entries : List (String × List α)} (nodup : (entries.map Prod.fst).Nodup) (key : String) :
    (entries.flatMap Prod.snd).Perm
      ((get? key entries).getD [] ++ (remove key entries).flatMap Prod.snd) := by
  induction entries with
  | nil => exact .refl _
  | cons first rest ih =>
    obtain ⟨k, values⟩ := first
    obtain ⟨absent, nodup⟩ := List.nodup_cons.mp nodup
    by_cases here : k = key
    · subst here
      have stays : remove k rest = rest := by
        refine List.filter_eq_self.mpr ?_
        intro entry member
        have other : entry.1 ≠ k := by
          rintro rfl
          exact absent (List.mem_map.mpr ⟨entry, member, rfl⟩)
        simpa using other
      have gone : remove k ((k, values) :: rest) = rest := by
        rw [remove, List.filter_cons_of_neg (by simp)]
        exact stays
      rw [gone, get?, if_pos rfl]
      exact .refl _
    · have kept : remove key ((k, values) :: rest) = (k, values) :: remove key rest :=
        List.filter_cons_of_pos (by simpa using here)
      rw [kept, get?, if_neg here, List.flatMap_cons, List.flatMap_cons]
      exact ((ih nodup).append_left values).trans (List.perm_append_comm_assoc _ _ _)

theorem perm_alter_append (key : String) (value : α) (entries : List (String × List α)) :
    ((alter key (fun values => values.getD [] ++ [value]) entries).flatMap Prod.snd).Perm
      (value :: entries.flatMap Prod.snd) := by
  induction entries with
  | nil => exact .refl _
  | cons first rest ih =>
    obtain ⟨k, values⟩ := first
    rw [alter]
    split
    · rw [List.flatMap_cons, List.flatMap_cons, Option.getD_some, List.append_assoc]
      exact List.perm_middle
    · rw [List.flatMap_cons, List.flatMap_cons]
      exact (ih.append_left values).trans List.perm_middle

end Entries

namespace Header

variable {h : Header} {key k source target : String}

/-- The values under a key, which are none if there is no such key. -/
def valuesOf (h : Header) (key : String) : List String :=
  (h.getAll? key).getD []

/-- The values under all keys. -/
def allValues (h : Header) : List String :=
  h.entries.flatMap Prod.snd

/-- Adds values behind those under a key. -/
def appendAll (h : Header) (key : String) (values : List String) : Header :=
  values.foldl (fun header value => header.append key value) h

theorem getAll?_appendAll_of_ne (other : key ≠ k) (h : Header) (values : List String) :
    (h.appendAll k values).getAll? key = h.getAll? key := by
  induction values generalizing h with
  | nil => rfl
  | cons value values ih => rw [appendAll, List.foldl_cons, ← appendAll, ih, getAll?_append, if_neg other.symm]

theorem valuesOf_appendAll (h : Header) (key : String) (values : List String) :
    (h.appendAll key values).valuesOf key = h.valuesOf key ++ values := by
  induction values generalizing h with
  | nil => exact (List.append_nil _).symm
  | cons value values ih =>
    have first : (h.append key value).valuesOf key = h.valuesOf key ++ [value] := by
      rw [valuesOf, getAll?_append, if_pos rfl, Option.getD_some, valuesOf]
    rw [appendAll, List.foldl_cons, ← appendAll, ih, first, List.append_assoc, List.singleton_append]

theorem perm_allValues_erase (h : Header) (key : String) :
    h.allValues.Perm (h.valuesOf key ++ (h.erase key).allValues) :=
  Entries.perm_remove h.nodup_keys key

theorem perm_allValues_appendAll (h : Header) (key : String) (values : List String) :
    (h.appendAll key values).allValues.Perm (values ++ h.allValues) := by
  induction values generalizing h with
  | nil => exact .refl _
  | cons value values ih =>
    have first : (h.append key value).allValues.Perm (value :: h.allValues) :=
      Entries.perm_alter_append key value h.entries
    exact (ih (h.append key value)).trans ((first.append_left values).trans List.perm_middle)

end Header

namespace Callback

variable {h : Header} {key source target : String} {pairs : List (String × String)}

/-! ### One rename -/

theorem renameKey_of_some {values : List String} (found : h.getAll? source = some values) :
    renameKey h source target = (h.erase source).appendAll target values := by
  simp only [renameKey, found, Header.appendAll]

theorem renameKey_of_none (absent : h.getAll? source = none) : renameKey h source target = h := by
  simp only [renameKey, absent]

/-- Values leave their key and go behind those under another. -/
theorem perm_allValues_renameKey (h : Header) (source target : String) :
    (renameKey h source target).allValues.Perm h.allValues := by
  cases found : h.getAll? source with
  | none => rw [renameKey_of_none found]
  | some values =>
    have split := h.perm_allValues_erase source
    rw [Header.valuesOf, found, Option.getD_some] at split
    rw [renameKey_of_some found]
    exact (Header.perm_allValues_appendAll _ _ _).trans split.symm

theorem getAll?_renameKey_source (apart : source ≠ target) (h : Header) :
    (renameKey h source target).getAll? source = none := by
  cases found : h.getAll? source with
  | none => rw [renameKey_of_none found, found]
  | some values =>
    rw [renameKey_of_some found, Header.getAll?_appendAll_of_ne apart, Header.getAll?_erase, if_pos rfl]

theorem getAll?_renameKey_of_ne (notSource : key ≠ source) (notTarget : key ≠ target) (h : Header) :
    (renameKey h source target).getAll? key = h.getAll? key := by
  cases found : h.getAll? source with
  | none => rw [renameKey_of_none found]
  | some values =>
    rw [renameKey_of_some found, Header.getAll?_appendAll_of_ne notTarget, Header.getAll?_erase,
      if_neg notSource]

theorem valuesOf_renameKey_target (apart : source ≠ target) (h : Header) :
    (renameKey h source target).valuesOf target = h.valuesOf target ++ h.valuesOf source := by
  cases found : h.getAll? source with
  | none =>
    have none : h.valuesOf source = [] := by rw [Header.valuesOf, found, Option.getD_none]
    rw [renameKey_of_none found, none, List.append_nil]
  | some values =>
    have some : h.valuesOf source = values := by rw [Header.valuesOf, found, Option.getD_some]
    have stays : (h.erase source).valuesOf target = h.valuesOf target := by
      rw [Header.valuesOf, Header.getAll?_erase, if_neg apart.symm, Header.valuesOf]
    rw [renameKey_of_some found, Header.valuesOf_appendAll, stays, some]

/-! ### All renames of a configuration -/

theorem renameKeys_cons (pair : String × String) (pairs : List (String × String)) (h : Header) :
    renameKeys (pair :: pairs) h = renameKeys pairs (renameKey h pair.1 pair.2) := rfl

theorem perm_allValues_renameKeys (pairs : List (String × String)) (h : Header) :
    (renameKeys pairs h).allValues.Perm h.allValues := by
  induction pairs generalizing h with
  | nil => exact .refl _
  | cons pair pairs ih =>
    rw [renameKeys_cons]
    exact (ih _).trans (perm_allValues_renameKey h pair.1 pair.2)

/-- No key that is renamed is the new name of another one, or of itself. -/
def Apart (pairs : List (String × String)) : Prop :=
  ∀ pair ∈ pairs, pair.2 ∉ pairs.map Prod.fst

theorem Apart.tail {pair : String × String} (apart : Apart (pair :: pairs)) : Apart pairs := by
  intro other member source
  exact apart other (.tail _ member) (.tail _ source)

theorem getAll?_renameKeys_of_notMem (notSource : key ∉ pairs.map Prod.fst) (notTarget : key ∉ pairs.map Prod.snd)
    (h : Header) : (renameKeys pairs h).getAll? key = h.getAll? key := by
  induction pairs generalizing h with
  | nil => rfl
  | cons pair pairs ih =>
    simp only [List.map_cons, List.mem_cons, not_or] at notSource notTarget
    rw [renameKeys_cons, ih notSource.2 notTarget.2, getAll?_renameKey_of_ne notSource.1 notTarget.1]

theorem getAll?_renameKeys_source (apart : Apart pairs) (member : key ∈ pairs.map Prod.fst) (h : Header) :
    (renameKeys pairs h).getAll? key = none := by
  induction pairs generalizing h with
  | nil => cases member
  | cons pair pairs ih =>
    rw [renameKeys_cons]
    by_cases later : key ∈ pairs.map Prod.fst
    · exact ih apart.tail later _
    · obtain rfl : key = pair.1 := (List.mem_cons.mp member).resolve_right later
      have notTarget : pair.1 ∉ (pair :: pairs).map Prod.snd := by
        intro target
        obtain ⟨other, there, same⟩ := List.mem_map.mp target
        exact apart other there (same ▸ List.mem_cons_self)
      rw [List.map_cons, List.mem_cons, not_or] at notTarget
      rw [getAll?_renameKeys_of_notMem later notTarget.2, getAll?_renameKey_source notTarget.1]

/-- The values that are renamed to a key, in the order of the configuration. -/
def gathered (pairs : List (String × String)) (h : Header) (key : String) : List String :=
  (pairs.filter fun pair => pair.2 = key).flatMap fun pair => h.valuesOf pair.1

theorem valuesOf_renameKeys_target (nodup : (pairs.map Prod.fst).Nodup) (apart : Apart pairs)
    (notSource : key ∉ pairs.map Prod.fst) (h : Header) :
    (renameKeys pairs h).valuesOf key = h.valuesOf key ++ gathered pairs h key := by
  induction pairs generalizing h with
  | nil => exact (List.append_nil _).symm
  | cons pair pairs ih =>
    obtain ⟨once, nodup⟩ := List.nodup_cons.mp nodup
    have ahead : pair.2 ∉ pair.1 :: pairs.map Prod.fst := apart pair List.mem_cons_self
    simp only [List.map_cons, List.mem_cons, not_or] at notSource ahead
    -- what the other pairs move is what stood under their keys from the start
    have others : gathered pairs (renameKey h pair.1 pair.2) key = gathered pairs h key := by
      refine List.flatMap_congr ?_
      intro other member
      have source : other.1 ∈ pairs.map Prod.fst := List.mem_map_of_mem (List.mem_of_mem_filter member)
      have notFirst : other.1 ≠ pair.1 := fun same => once (same ▸ source)
      have notTarget : other.1 ≠ pair.2 := fun same => ahead.2 (same ▸ source)
      rw [Header.valuesOf, getAll?_renameKey_of_ne notFirst notTarget, Header.valuesOf]
    rw [renameKeys_cons, ih nodup apart.tail notSource.2, others]
    by_cases here : pair.2 = key
    · subst here
      have first : gathered (pair :: pairs) h pair.2 = h.valuesOf pair.1 ++ gathered pairs h pair.2 := by
        rw [gathered, List.filter_cons_of_pos (by simp), List.flatMap_cons, gathered]
      rw [first, valuesOf_renameKey_target (Ne.symm ahead.1), List.append_assoc]
    · have first : gathered (pair :: pairs) h key = gathered pairs h key := by
        rw [gathered, List.filter_cons_of_neg (by simpa using here), gathered]
      rw [first, Header.valuesOf, getAll?_renameKey_of_ne notSource.1 (Ne.symm here), Header.valuesOf]

/-- What renaming makes of a header where no new key is an old one as well. -/
structure Renamed (pairs : List (String × String)) (before after : Header) : Prop where
  sources : ∀ pair ∈ pairs, after.getAll? pair.1 = none
  targets : ∀ pair ∈ pairs, after.valuesOf pair.2 = before.valuesOf pair.2 ++ gathered pairs before pair.2
  others : ∀ key, key ∉ pairs.map Prod.fst → key ∉ pairs.map Prod.snd → after.getAll? key = before.getAll? key

theorem renamed_renameKeys (nodup : (pairs.map Prod.fst).Nodup) (apart : Apart pairs) (h : Header) :
    Renamed pairs h (renameKeys pairs h) where
  sources _ member := getAll?_renameKeys_source apart (List.mem_map_of_mem member) h
  targets pair member := valuesOf_renameKeys_target nodup apart (apart pair member) h
  others _ notSource notTarget := getAll?_renameKeys_of_notMem notSource notTarget h

/-! ### The callback -/

theorem eq_object_of_stringPairs {callback : String} {config : Json}
    (read : stringPairs callback config = .ok pairs) :
    config = .object (pairs.map fun pair => (pair.1, .string pair.2)) := by
  cases config with
  | object members =>
    have row := forall₂_of_mapM_eq_ok read
    clear read
    refine congrArg Json.object ?_
    induction row with
    | nil => rfl
    | @cons member pair _ _ first _ ih =>
      obtain ⟨k, value⟩ := member
      cases value with
      | string text =>
        cases first
        rw [List.map_cons, ← ih]
      | _ => cases first
  | _ => cases read

/-- Renaming keys of a header moves its values and neither loses nor doubles one, however old and new keys are
entangled. Where no new key is an old one as well, the values under the old keys stand behind those under
the new ones, in the order of the old keys, and nothing else has changed. -/
theorem renaming_conserves_values {members : List (String × Json)} {rename : BeforeCallback}
    (made : headerRename (.ofMembers members) = .ok rename) :
    ∃ pairs : List (String × String),
      Json.ofMembers members = .object (pairs.map fun pair => (pair.1, .string pair.2)) ∧
      Entries.Ordered pairs ∧
      ∀ request : Request, ∃ header : Header, rename request = .ok { request with header } ∧
        header.allValues.Perm request.header.allValues ∧
        (Apart pairs → Renamed pairs request.header header) := by
  obtain ⟨pairs, read, rfl⟩ := ok_of_map_eq_ok made
  have same := eq_object_of_stringPairs read
  have ordered : Entries.Ordered pairs := by
    have sorted := Entries.ordered_sortedLast members
    rw [Json.object.inj same, Entries.Ordered, List.pairwise_map] at sorted
    exact sorted
  refine ⟨pairs, same, ordered, ?_⟩
  intro request
  exact ⟨renameKeys pairs request.header, rfl, perm_allValues_renameKeys pairs request.header,
    fun apart => renamed_renameKeys ordered.nodup_keys apart request.header⟩

/-- A request with values under two keys that are renamed to a third one, which has a value of its own. -/
def crowdedRequest : Request where
  header := .ofList [("b", "4"), ("x", "1"), ("a", "2"), ("y", "0"), ("a", "3")]

theorem crowded_request_renamed :
    ∃ rename, headerRename (.ofMembers [("b", .string "x"), ("a", .string "x")]) = .ok rename ∧
      ∃ header, rename crowdedRequest = .ok { crowdedRequest with header } ∧
        header.allValues.Perm ["4", "1", "2", "3", "0"] ∧ header.getAll? "a" = none ∧ header.getAll? "b" = none ∧
        header.valuesOf "x" = ["1", "2", "3", "4"] ∧ header.getAll? "y" = some ["0"] := by
  have made : headerRename (.ofMembers [("b", .string "x"), ("a", .string "x")]) = .ok _ := rfl
  obtain ⟨pairs, same, -, renames⟩ := renaming_conserves_values made
  have injective : Function.Injective fun pair : String × String => (pair.1, Json.string pair.2) := by
    rintro ⟨key, text⟩ ⟨key', text'⟩ same
    cases same
    rfl
  obtain rfl : [("a", "x"), ("b", "x")] = pairs := injective.list_map (Json.object.inj same)
  obtain ⟨header, renamed, conserved, moved⟩ := renames crowdedRequest
  have moved := moved (by unfold Apart; decide)
  exact ⟨_, made, header, renamed, conserved, moved.sources ("a", "x") (by decide),
    moved.sources ("b", "x") (by decide), moved.targets ("a", "x") (by decide),
    moved.others "y" (by decide) (by decide)⟩

end Callback
end RpcClient
