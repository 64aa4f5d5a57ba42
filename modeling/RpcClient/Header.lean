import RpcClient.Entries

/-!
Header multimaps. A key holds a list of values; where a single value is asked for, they are joined
by commas.
-/
namespace RpcClient

/-- A multimap of texts. Each key occurs once, in the order of its first value. -/
structure Header where
  entries : List (String × List String)
  nodup_keys : (entries.map Prod.fst).Nodup

namespace Header

theorem keys_alter {α : Type} (key : String) (f : Option α → α) (entries : List (String × α)) :
    (Entries.alter key f entries).map Prod.fst =
      if key ∈ entries.map Prod.fst then entries.map Prod.fst
      else entries.map Prod.fst ++ [key] := by
  induction entries with
  | nil => simp [Entries.alter]
  | cons entry rest ih =>
    obtain ⟨k, v⟩ := entry
    by_cases h : k = key
    · simp [Entries.alter, h]
    · have h' : ¬ key = k := fun e => h e.symm
      simp only [Entries.alter, h, if_false, List.map_cons, ih, List.mem_cons, h', false_or]
      split <;> simp

theorem nodup_keys_alter {α : Type} (key : String) (f : Option α → α)
    {entries : List (String × α)} (h : (entries.map Prod.fst).Nodup) :
    ((Entries.alter key f entries).map Prod.fst).Nodup := by
  rw [keys_alter]
  split
  · exact h
  · rename_i absent
    rw [List.nodup_append]
    refine ⟨h, by simp, ?_⟩
    intro a inKeys b isKey
    simp only [List.mem_singleton] at isKey
    intro same
    exact absent (isKey ▸ same ▸ inKeys)

def empty : Header := ⟨[], by simp⟩

instance : Inhabited Header := ⟨empty⟩

def getAll? (h : Header) (key : String) : Option (List String) :=
  Entries.get? key h.entries

/-- The values under `key` joined by commas; the empty text if there are none. -/
def get (h : Header) (key : String) : String :=
  ",".intercalate ((h.getAll? key).getD [])

def contains (h : Header) (key : String) : Bool :=
  Entries.contains key h.entries

def size (h : Header) : Nat :=
  h.entries.length

def append (h : Header) (key value : String) : Header where
  entries := Entries.alter key (fun values => values.getD [] ++ [value]) h.entries
  nodup_keys := nodup_keys_alter key _ h.nodup_keys

def setAll (h : Header) (key : String) (values : List String) : Header where
  entries := Entries.put key values h.entries
  nodup_keys := nodup_keys_alter key _ h.nodup_keys

def set (h : Header) (key value : String) : Header :=
  h.setAll key [value]

def erase (h : Header) (key : String) : Header where
  entries := Entries.remove key h.entries
  nodup_keys := h.nodup_keys.sublist (List.Sublist.map _ List.filter_sublist)

def toList (h : Header) : List (String × String) :=
  h.entries.map fun (key, values) => (key, ",".intercalate values)

/-- Collects entries, each behind the values that its key already has. -/
def ofList (entries : List (String × String)) : Header :=
  entries.foldl (fun h (key, value) => h.append key value) empty

/-- Whether two headers hold the same values under the same keys, in whatever order of keys. -/
def same (a b : Header) : Bool :=
  a.size == b.size && a.entries.all fun (key, values) => b.getAll? key == some values

/-- Visits keys with their joined values until `more` refuses the state, and returns the state. -/
def visit {σ : Type} (h : Header) (step : σ → String → String → σ) (more : σ → Bool)
    (state : σ) : σ :=
  go state h.toList
where
  go (state : σ) : List (String × String) → σ
    | [] => state
    | (key, value) :: rest =>
      let state := step state key value
      if more state then go state rest else state

end Header
end RpcClient
