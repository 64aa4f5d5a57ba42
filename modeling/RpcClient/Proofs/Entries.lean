import RpcClient.Header

/-! What stands under a key in a list of entries, in order. Putting a value replaces the first of them,
so that all but the first of the old values stay when entries are put one after another. -/
namespace RpcClient.Entries

variable {α β : Type} {key k : String} {value : α} {own entries : List (String × α)}

/-- The values under `key`, in their order. -/
def values (key : String) (entries : List (String × α)) : List α :=
  entries.filterMap fun (k, value) => if k = key then some value else none

/-- Puts the entries of `own` one after another. -/
def putAll (own entries : List (String × α)) : List (String × α) :=
  own.foldl (fun entries (key, value) => put key value entries) entries

theorem values_cons (key k : String) (value : α) (entries : List (String × α)) :
    values key ((k, value) :: entries) =
      if k = key then value :: values key entries else values key entries := by
  by_cases same : k = key
  · rw [if_pos same]
    exact List.filterMap_cons_some (if_pos same)
  · rw [if_neg same]
    exact List.filterMap_cons_none (if_neg same)

theorem mem_values_iff : value ∈ values key entries ↔ (key, value) ∈ entries := by
  rw [values, List.mem_filterMap]
  constructor
  · rintro ⟨⟨k, value'⟩, member, here⟩
    obtain ⟨rfl, same⟩ := Option.ite_none_right_eq_some.mp here
    cases same
    exact member
  · intro member
    exact ⟨(key, value), member, if_pos rfl⟩

theorem values_append (key : String) (front behind : List (String × α)) :
    values key (front ++ behind) = values key front ++ values key behind :=
  List.filterMap_append

theorem get?_eq_head?_values (key : String) (entries : List (String × α)) :
    get? key entries = (values key entries).head? := by
  induction entries with
  | nil => rfl
  | cons entry entries ih =>
    rw [get?, values_cons]
    split
    · rfl
    · exact ih

theorem get?_append (key : String) (front behind : List (String × α)) :
    get? key (front ++ behind) = (get? key front).or (get? key behind) := by
  rw [get?_eq_head?_values, get?_eq_head?_values, get?_eq_head?_values, values_append, List.head?_append]

theorem values_eq_nil_iff : values key entries = [] ↔ ∀ entry ∈ entries, entry.1 ≠ key := by
  induction entries with
  | nil => exact ⟨fun _ => nofun, fun _ => rfl⟩
  | cons entry entries ih =>
    obtain ⟨k, value⟩ := entry
    rw [values_cons, List.forall_mem_cons]
    split
    · next same => exact ⟨nofun, fun other => absurd same other.1⟩
    · next other => rw [ih, and_iff_right other]

theorem values_filter {p : String → Bool} (passes : p key = true) (entries : List (String × α)) :
    values key (entries.filter fun entry => p entry.1) = values key entries := by
  induction entries with
  | nil => rfl
  | cons entry entries ih =>
    obtain ⟨k, value⟩ := entry
    rw [List.filter_cons]
    by_cases same : k = key
    · subst same
      rw [if_pos passes, values_cons, values_cons, ih]
    · split
      · rw [values_cons, values_cons, ih]
      · rw [ih, values_cons, if_neg same]

theorem values_put (key k : String) (value : α) (entries : List (String × α)) :
    values key (put k value entries) =
      if k = key then value :: (values key entries).tail else values key entries := by
  rw [put]
  induction entries with
  | nil =>
    rw [alter, values_cons]
    rfl
  | cons entry entries ih =>
    obtain ⟨k', old⟩ := entry
    rw [alter]
    split
    · next here =>
      subst here
      rw [values_cons, values_cons]
      split
      · rfl
      · rfl
    · next other =>
      rw [values_cons, values_cons, ih]
      by_cases same : k' = key
      · have apart : ¬ k = key := fun same' => other (same.trans same'.symm)
        rw [if_neg apart, if_neg apart]
      · rw [if_neg same, if_neg same]

/-- The last value that is put takes the place of the first one that was there. -/
theorem values_putAll (key : String) (own entries : List (String × α)) :
    values key (putAll own entries) =
      match (values key own).getLast? with
      | none => values key entries
      | some value => value :: (values key entries).tail := by
  induction own generalizing entries with
  | nil => rfl
  | cons entry own ih =>
    obtain ⟨k, value⟩ := entry
    have step : values key (putAll ((k, value) :: own) entries) =
        values key (putAll own (put k value entries)) := rfl
    rw [step, ih, values_put, values_cons]
    split
    · next none =>
      rw [List.getLast?_eq_none_iff] at none
      rw [none]
      split
      · rfl
      · rfl
    · next last found =>
      split
      · rw [List.getLast?_cons, found]
        rfl
      · rw [found]

theorem putAll_append (front behind entries : List (String × α)) :
    putAll (front ++ behind) entries = putAll behind (putAll front entries) :=
  List.foldl_append

theorem get?_putAll_nil (key : String) (entries : List (String × α)) :
    get? key (putAll entries []) = (values key entries).getLast? := by
  rw [get?_eq_head?_values, values_putAll]
  cases (values key entries).getLast? with
  | none => rfl
  | some value => rfl

/-- The last entry under `key` holds `value`. -/
def Latest (key : String) (value : α) (entries : List (String × α)) : Prop :=
  ∃ front behind, entries = front ++ (key, value) :: behind ∧ ∀ entry ∈ behind, entry.1 ≠ key

theorem latest_iff : Latest key value entries ↔ (values key entries).getLast? = some value := by
  constructor
  · rintro ⟨front, behind, rfl, others⟩
    rw [values_append, values_cons, if_pos rfl, values_eq_nil_iff.mpr others, List.getLast?_concat]
  · intro last
    induction entries with
    | nil => cases last
    | cons entry entries ih =>
      obtain ⟨k, first⟩ := entry
      rw [values_cons] at last
      by_cases later : values key entries = []
      · rw [later] at last
        split at last
        · next here =>
          subst here
          cases last
          exact ⟨[], entries, rfl, values_eq_nil_iff.mp later⟩
        · cases last
      · have among : (values key entries).getLast? = some value := by
          split at last
          · rwa [List.getLast?_cons_of_ne_nil later] at last
          · exact last
        obtain ⟨front, behind, rfl, others⟩ := ih among
        exact ⟨(k, first) :: front, behind, rfl, others⟩

theorem Latest.between {front behind : List (String × α)} (latest : Latest key value entries)
    (others : ∀ entry ∈ behind, entry.1 ≠ key) : Latest key value (front ++ entries ++ behind) := by
  obtain ⟨before, after, rfl, none⟩ := latest
  refine ⟨front ++ before, after ++ behind, by simp, ?_⟩
  intro entry member
  exact (List.mem_append.mp member).elim (none entry) (others entry)

theorem latest_of_forall (member : (key, value) ∈ entries)
    (same : ∀ other, (key, other) ∈ entries → other = value) : Latest key value entries := by
  rw [latest_iff]
  cases last : (values key entries).getLast? with
  | none =>
    have nothing := List.getLast?_eq_none_iff.mp last
    exact (List.not_mem_nil (nothing ▸ mem_values_iff.mpr member)).elim
  | some other => rw [same other (mem_values_iff.mp (List.mem_of_getLast? last))]

theorem values_map (key : String) (f : α → β) (entries : List (String × α)) :
    values key (entries.map fun (k, value) => (k, f value)) = (values key entries).map f := by
  induction entries with
  | nil => rfl
  | cons entry entries ih =>
    rw [List.map_cons, values_cons, ih, values_cons]
    split
    · rfl
    · rfl

theorem get?_alter (key k : String) (f : Option α → α) (entries : List (String × α)) :
    get? key (alter k f entries) = if k = key then some (f (get? key entries)) else get? key entries := by
  induction entries with
  | nil => rfl
  | cons entry entries ih =>
    obtain ⟨k', value⟩ := entry
    rw [alter]
    by_cases here : k' = k
    · subst here
      rw [if_pos rfl, get?, get?]
      split <;> rfl
    · rw [if_neg here, get?, get?, ih]
      by_cases same : k' = key
      · have apart : ¬ k = key := fun same' => here (same.trans same'.symm)
        simp [same, apart]
      · simp [same]

theorem values_of_nodup (nodup : (entries.map Prod.fst).Nodup) (key : String) :
    values key entries = (get? key entries).toList := by
  induction entries with
  | nil => rfl
  | cons entry entries ih =>
    obtain ⟨k, value⟩ := entry
    rw [List.map_cons, List.nodup_cons] at nodup
    rw [values_cons, get?]
    split
    · next same =>
      have absent : values key entries = [] := by
        rw [values_eq_nil_iff]
        rintro entry member again
        exact nodup.1 (List.mem_map.mpr ⟨entry, member, again.trans same.symm⟩)
      rw [absent]
      rfl
    · exact ih nodup.2

theorem mem_put {entry : String × α} (member : entry ∈ put key value entries) :
    entry = (key, value) ∨ entry ∈ entries := by
  rw [put] at member
  induction entries with
  | nil => exact .inl (List.mem_singleton.mp member)
  | cons first entries ih =>
    obtain ⟨k, old⟩ := first
    rw [alter] at member
    split at member
    · next here =>
      rw [List.mem_cons, here] at member
      exact member.imp_right (.tail _)
    · obtain first | member := List.mem_cons.mp member
      · exact .inr (first ▸ List.mem_cons_self)
      · exact (ih member).imp_right (.tail _)

theorem mem_putAll {entry : String × α} (member : entry ∈ putAll own entries) :
    entry ∈ own ∨ entry ∈ entries := by
  induction own generalizing entries with
  | nil => exact .inr member
  | cons first own ih =>
    obtain own | put := ih member
    · exact .inl (.tail _ own)
    · obtain rfl | old := mem_put put
      · exact .inl List.mem_cons_self
      · exact .inr old

theorem get?_of_mem (nodup : (entries.map Prod.fst).Nodup) (member : (key, value) ∈ entries) :
    get? key entries = some value := by
  induction entries with
  | nil => cases member
  | cons entry entries ih =>
    obtain ⟨k, first⟩ := entry
    rw [List.map_cons, List.nodup_cons] at nodup
    rw [get?]
    obtain here | member := List.mem_cons.mp member
    · cases here
      rw [if_pos rfl]
    · have apart : k ≠ key := by
        rintro rfl
        exact nodup.1 (List.mem_map.mpr ⟨_, member, rfl⟩)
      rw [if_neg apart, ih nodup.2 member]

theorem mem_of_get? (here : get? key entries = some value) : (key, value) ∈ entries := by
  rw [get?_eq_head?_values] at here
  exact mem_values_iff.mp (List.mem_of_mem_head? here)

theorem get?_put (key k : String) (value : α) (entries : List (String × α)) :
    get? key (put k value entries) = if k = key then some value else get? key entries :=
  get?_alter key k _ entries

theorem put_eq_self (here : get? key entries = some value) : put key value entries = entries := by
  rw [put]
  induction entries with
  | nil => cases here
  | cons entry entries ih =>
    obtain ⟨k, first⟩ := entry
    rw [get?] at here
    rw [alter]
    split at here
    · next same =>
      cases here
      rw [if_pos same]
    · next other => rw [if_neg other, ih here]

/-- Putting what is there already changes nothing. -/
theorem putAll_eq_self (present : ∀ entry ∈ own, get? entry.1 entries = some entry.2) :
    putAll own entries = entries := by
  induction own with
  | nil => rfl
  | cons entry own ih =>
    obtain ⟨first, present⟩ := List.forall_mem_cons.mp present
    have step : putAll (entry :: own) entries = putAll own (put entry.1 entry.2 entries) := rfl
    rw [step, put_eq_self first, ih present]

theorem nodup_keys_putAll (nodup : (entries.map Prod.fst).Nodup) (own : List (String × α)) :
    ((putAll own entries).map Prod.fst).Nodup := by
  induction own generalizing entries with
  | nil => exact nodup
  | cons entry own ih => exact ih (Header.nodup_keys_alter entry.1 _ nodup)

end RpcClient.Entries

namespace RpcClient.Header

/-- Under a key of a header there is one joined text, and under any other there is none. -/
theorem values_toList (h : Header) (key : String) :
    Entries.values key h.toList = if h.contains key then [h.get key] else [] := by
  rw [toList, Entries.values_map, Entries.values_of_nodup h.nodup_keys, contains, Entries.contains, get,
    getAll?]
  cases Entries.get? key h.entries with
  | none => rfl
  | some values => rfl

theorem getAll?_append (h : Header) (key k value : String) :
    (h.append k value).getAll? key =
      if k = key then some ((h.getAll? key).getD [] ++ [value]) else h.getAll? key :=
  Entries.get?_alter key k _ h.entries

theorem getAll?_erase (h : Header) (key k : String) :
    (h.erase k).getAll? key = if key = k then none else h.getAll? key := by
  simp only [getAll?, erase, Entries.remove, Entries.get?_eq_head?_values]
  split
  · next same =>
    subst same
    rw [List.head?_eq_none_iff, Entries.values_eq_nil_iff]
    intro entry member
    simpa using (List.mem_filter.mp member).2
  · next other => rw [Entries.values_filter (p := (· ≠ k)) (by simpa using other)]

theorem contains_erase (h : Header) (key k : String) :
    (h.erase k).contains key = (h.contains key && key != k) := by
  have erased := h.getAll?_erase key k
  rw [getAll?, getAll?] at erased
  rw [contains, contains, Entries.contains, Entries.contains, erased]
  by_cases same : key = k <;> simp [same]

theorem get_erase_of_ne {key k : String} (other : key ≠ k) (h : Header) : (h.erase k).get key = h.get key := by
  rw [get, getAll?_erase, if_neg other, get]

theorem mem_toList_iff {h : Header} {key value : String} :
    (key, value) ∈ h.toList ↔ h.contains key = true ∧ h.get key = value := by
  rw [← Entries.mem_values_iff, values_toList]
  split
  · next held => rw [List.mem_singleton, eq_comm, and_iff_right held]
  · next absent => exact ⟨fun member => (List.not_mem_nil member).elim, fun held => absurd held.1 absent⟩

/-- A header that entries were collected into holds their values, each under its key and in order. -/
theorem getAll?_ofList (entries : List (String × String)) (key : String) :
    (ofList entries).getAll? key =
      if Entries.values key entries = [] then none else some (Entries.values key entries) := by
  have collected : ∀ h : Header, (entries.foldl (fun h entry => h.append entry.1 entry.2) h).getAll? key =
      if Entries.values key entries = [] then h.getAll? key
      else some ((h.getAll? key).getD [] ++ Entries.values key entries) := by
    induction entries with
    | nil => exact fun h => rfl
    | cons entry entries ih =>
      obtain ⟨k, value⟩ := entry
      intro h
      rw [List.foldl_cons, ih, getAll?_append, Entries.values_cons]
      by_cases same : k = key
      · simp only [same, if_true]
        cases Entries.values key entries with
        | nil => rfl
        | cons first values => simp
      · simp only [same, if_false]
  exact collected empty

/-- What was flattened into one entry for each key and collected again holds the joined values. -/
theorem getAll?_ofList_toList (h : Header) (key : String) :
    (ofList h.toList).getAll? key = if h.contains key then some [h.get key] else none := by
  rw [getAll?_ofList, values_toList]
  cases h.contains key <;> rfl

theorem contains_ofList_toList (h : Header) (key : String) :
    (ofList h.toList).contains key = h.contains key := by
  have flattened := getAll?_ofList_toList h key
  rw [getAll?] at flattened
  rw [contains, Entries.contains, flattened]
  cases h.contains key <;> rfl

theorem get_ofList_toList (h : Header) (key : String) : (ofList h.toList).get key = h.get key := by
  rw [get, getAll?_ofList_toList]
  cases held : h.contains key with
  | true => exact String.intercalate_singleton
  | false =>
    have none : h.getAll? key = none := Option.not_isSome_iff_eq_none.mp (by
      rw [← Bool.not_eq_true] at held
      exact held)
    rw [get, none]
    rfl

end RpcClient.Header
