import RpcClient.Proofs.Hessian.Skipping
import RpcClient.Proofs.Hessian.Written

/-! Maps entry by entry, with the bytes of keys and values of every kind. Reading a map of strings keeps the
entries whose key and value are strings, and nothing of the others. -/
namespace RpcClient.Hessian

variable {α β : Type} {m : Read α} {a : α} {position : Nat} {classes classes' : Array Nat} {used : Bytes}
  {entries : List (String × String)}

/-- An entry of a map as it stands in the data, with the texts of key and value where they are strings. -/
structure Slot where
  keyBytes : Bytes
  key? : Option String
  valueBytes : Bytes
  value? : Option String
  deriving DecidableEq, Repr

/-- The entry, if key and value are strings. -/
def Slot.entry? (slot : Slot) : Option (String × String) :=
  match slot.key?, slot.value? with
  | some key, some value => some (key, value)
  | _, _ => none

/-- What is written for an entry. -/
def Slot.ofEntry (entry : String × String) : Slot where
  keyBytes := writeString entry.1
  key? := some entry.1
  valueBytes := writeString entry.2
  value? := some entry.2

theorem Slot.filterMap_ofEntry (entries : List (String × String)) :
    (entries.map Slot.ofEntry).filterMap Slot.entry? = entries := by
  rw [List.filterMap_map]
  exact List.filterMap_some

/-- Runs an action, and tells the bytes that it takes. -/
def spanned (action : Read α) : Read (α × Bytes) := do
  let before ← get
  let a ← action
  let after ← get
  return (a, before.rest.take (after.position - before.position))

/-- Reads entries up to the end mark, behind those in `slots`, which holds the newest first. -/
def readSlotsWithin : (fuel : Nat) → (slots : List Slot) → Read (List Slot)
  | 0, _ => throw .endOfData
  | fuel + 1, slots => do
    if Tag.ofByte (← peek) == .endMark then
      discard byte
      return slots.reverse
    else
      let (key?, keyBytes) ← spanned readStringOrSkip
      let (value?, valueBytes) ← spanned readStringOrSkip
      readSlotsWithin fuel (⟨keyBytes, key?, valueBytes, value?⟩ :: slots)

/-- Reads a map with entries of every kind. -/
def readSlots : Read (List Slot) := do
  let b ← byte
  match Tag.ofByte b with
  | .map => pure ()
  | .typedMap => skipType
  | _ => throw (.notMap b)
  readSlotsWithin (← get).remaining []

/-! ### The strings among them -/

theorem spanned_bind {g : α × Bytes → Read β} {f : α → Read β} (same : ∀ a bytes, g (a, bytes) = f a) :
    spanned m >>= g = m >>= f := by
  funext c
  change EStateM.bind (spanned m) g c = EStateM.bind m f c
  rw [EStateM.bind, EStateM.bind]
  cases result : m c with
  | ok a c' =>
    have span : spanned m c = .ok (a, c.rest.take (c'.position - c.position)) c' := by
      rw [spanned, bind_get, bind_of_ok result]
      rfl
    rw [span]
    exact congrFun (same a _) c'
  | error flaw c' =>
    have span : spanned m c = .error flaw c' := by
      rw [spanned, bind_get]
      change EStateM.bind m _ c = _
      rw [EStateM.bind, result]
    rw [span]

theorem readEntriesWithin_eq (fuel : Nat) (slots : List Slot) :
    readEntriesWithin fuel (slots.filterMap Slot.entry?) =
      List.filterMap Slot.entry? <$> readSlotsWithin fuel slots := by
  induction fuel generalizing slots with
  | zero => rfl
  | succ fuel ih =>
    rw [readEntriesWithin, readSlotsWithin, map_bind]
    refine bind_congr fun b => ?_
    split
    · rw [map_bind]
      refine bind_congr fun _ => ?_
      rw [map_pure, List.filterMap_reverse]
    · rw [map_bind]
      symm
      apply spanned_bind
      intro key? keyBytes
      rw [map_bind]
      apply spanned_bind
      intro value? valueBytes
      dsimp only
      rw [← ih, List.filterMap_cons, Slot.entry?]
      cases key? <;> cases value? <;> rfl

/-- Reading a map of strings is reading the map and forgetting the entries that are not strings. -/
theorem readStringMap_eq : readStringMap = List.filterMap Slot.entry? <$> readSlots := by
  have behind : (do readEntriesWithin (← get).remaining []) =
      List.filterMap Slot.entry? <$> (do readSlotsWithin (← get).remaining [] : Read (List Slot)) := by
    rw [map_bind]
    exact bind_congr fun c => readEntriesWithin_eq c.remaining []
  rw [readStringMap, readSlots, map_bind]
  refine bind_congr fun b => ?_
  dsimp only
  cases Tag.ofByte b with
  | map => exact behind
  | typedMap =>
    rw [map_bind]
    exact bind_congr fun _ => behind
  | _ => rfl

/-! ### Maps that were written -/

theorem Takes.spanned (takes : Takes m position classes used a classes') :
    Takes (spanned m) position classes used (a, used) classes' := by
  intro rest
  rw [Hessian.spanned, bind_get, bind_of_ok (takes rest), bind_get]
  have span : (used ++ rest).take (position + used.length - position) = used := by
    rw [Nat.add_sub_cancel_left, List.take_left]
  exact congrArg (fun bytes => EStateM.Result.ok (a, bytes) _) span

theorem takes_readSlotsWithin (position : Nat) (classes : Array Nat) {fuel : Nat} (done : List Slot)
    (enough : entries.length < fuel)
    (short : ∀ entry ∈ entries, entry.1.length ≤ 65535 ∧ entry.2.length ≤ 65535) :
    Takes (readSlotsWithin fuel done) position classes (writeEntries entries ++ [0x5a])
      (done.reverse ++ entries.map Slot.ofEntry) classes := by
  induction entries generalizing position fuel done with
  | nil =>
    obtain ⟨fuel, rfl⟩ := Nat.exists_eq_succ_of_ne_zero (Nat.ne_zero_of_lt enough)
    have ended : (Tag.ofByte 0x5a == .endMark) = true := by decide
    rw [List.map_nil, List.append_nil]
    apply Takes.peek_bind
    rw [if_pos ended]
    exact (Takes.byte position classes 0x5a).discard.bind (Takes.pure _ classes done.reverse)
  | cons entry entries ih =>
    obtain ⟨fuel, rfl⟩ := Nat.exists_eq_succ_of_ne_zero (Nat.ne_zero_of_lt enough)
    obtain ⟨key, value⟩ := entry
    obtain ⟨shortKey, shortValue⟩ := short (key, value) List.mem_cons_self
    obtain ⟨head, behind, start, more⟩ := exists_writeString_eq_cons shortKey
    have others : ∀ entry ∈ entries, entry.1.length ≤ 65535 ∧ entry.2.length ≤ 65535 :=
      fun entry member => short entry (.tail _ member)
    have rest := ih (position + (writeString key).length + (writeString value).length)
      (Slot.ofEntry (key, value) :: done) (Nat.lt_of_succ_lt_succ enough) others
    rw [List.reverse_cons, List.append_assoc] at rest
    rw [writeEntries_cons, List.append_assoc, List.append_assoc, start, List.cons_append]
    apply Takes.peek_bind
    -- no end mark, so the byte is left where it is and starts the key
    have going : (Tag.ofByte head == .endMark) = false := beq_false_of_ne (ne_endMark_of_startsString more)
    rw [going, if_neg Bool.false_ne_true, ← List.cons_append, ← start]
    apply (takes_readStringOrSkip position classes shortKey).spanned.bind
    apply (takes_readStringOrSkip _ classes shortValue).spanned.bind
    exact rest

theorem takes_readSlots (position : Nat) (classes : Array Nat)
    (short : ∀ entry ∈ entries, entry.1.length ≤ 65535 ∧ entry.2.length ≤ 65535) :
    Takes readSlots position classes (writeStringMap entries) (entries.map Slot.ofEntry) classes := by
  have each : ∀ budget, (writeEntries entries ++ [0x5a]).length ≤ budget →
      Takes (readSlotsWithin budget []) (position + 1) classes (writeEntries entries ++ [0x5a])
        (entries.map Slot.ofEntry) classes := by
    intro budget enough
    have fewer := length_le_writeEntries short
    rw [List.length_append, List.length_singleton] at enough
    exact takes_readSlotsWithin (position + 1) classes [] (by omega) short
  apply (Takes.byte position classes 0x48).bind
  exact Takes.get_remaining each

theorem Takes.map (f : α → β) (takes : Takes m position classes used a classes') :
    Takes (f <$> m) position classes used (f a) classes' := by
  intro rest
  rw [← bind_pure_comp, bind_of_ok (takes rest)]
  rfl

/-- A map of strings that was written is read from wherever it stands. -/
theorem takes_readStringMap (position : Nat) (classes : Array Nat)
    (short : ∀ entry ∈ entries, entry.1.length ≤ 65535 ∧ entry.2.length ≤ 65535) :
    Takes readStringMap position classes (writeStringMap entries) entries classes := by
  have texts := (takes_readSlots position classes short).map (List.filterMap Slot.entry?)
  rwa [Slot.filterMap_ofEntry, ← readStringMap_eq] at texts

theorem takesEach_writeEntries (position : Nat) (classes : Array Nat) (room : Nat)
    (short : ∀ entry ∈ entries, entry.1.length ≤ 65535 ∧ entry.2.length ≤ 65535) :
    TakesEach (skipWithin (room + 1)) position classes
      (entries.flatMap fun (key, value) => [writeString key, writeString value]) classes := by
  apply TakesEach.of_forall
  intro piece member position
  obtain ⟨⟨key, value⟩, entry, member⟩ := List.mem_flatMap.mp member
  obtain ⟨shortKey, shortValue⟩ := short (key, value) entry
  have written : piece = writeString key ∨ piece = writeString value := by simpa using member
  obtain rfl | rfl := written
  · exact takes_skipWithin_string (takes_readString position classes shortKey) room
  · exact takes_skipWithin_string (takes_readString position classes shortValue) room

theorem takes_skipWithin_writeStringMap (position : Nat) (classes : Array Nat) (room : Nat)
    (short : ∀ entry ∈ entries, entry.1.length ≤ 65535 ∧ entry.2.length ≤ 65535) :
    Takes (skipWithin (room + 2)) position classes (writeStringMap entries) () classes := by
  have each := takesEach_writeEntries (position + 1) classes room short
  have flat : (entries.flatMap fun (key, value) => [writeString key, writeString value]).flatten =
      writeEntries entries := by
    simp [writeEntries, List.flatMap_def, List.flatten_flatten, Function.comp_def]
  have body := each.untilEnd (stopsAtEnd_skipWithin (room + 1))
  rw [flat] at body
  exact takes_skipWithin_body rfl rfl rfl body

/-- A map of strings that was written is read as the same map, and stepping over it stops where reading it does. -/
theorem stringMap_round_trips (entries : List (String × String)) (position : Nat) (classes : Array Nat)
    (rest : Bytes) (short : ∀ entry ∈ entries, entry.1.length ≤ 65535 ∧ entry.2.length ≤ 65535) :
    let start : Cursor := .of position classes (writeStringMap entries ++ rest)
    let stop : Cursor := .of (position + (writeStringMap entries).length) classes rest
    readStringMap start = .ok entries stop ∧ skipValue start = .ok () stop :=
  ⟨takes_readStringMap position classes short rest,
    takes_skipWithin_writeStringMap position classes 63 short rest⟩

theorem stringMap_round_trips_twice_keyed :
    writeStringMap [("é", ""), ("é", "a")] = [0x48, 1, 0xc3, 0xa9, 0, 1, 0xc3, 0xa9, 1, 0x61, 0x5a] ∧
      readStringMap (.of 3 #[1] (writeStringMap [("é", ""), ("é", "a")] ++ [0x4e])) =
        .ok [("é", ""), ("é", "a")] (.of 14 #[1] [0x4e]) ∧
      skipValue (.of 3 #[1] (writeStringMap [("é", ""), ("é", "a")] ++ [0x4e])) = .ok () (.of 14 #[1] [0x4e]) := by
  have short : ∀ entry ∈ [("é", ""), ("é", "a")], entry.1.length ≤ 65535 ∧ entry.2.length ≤ 65535 := by
    decide
  exact ⟨by decide, stringMap_round_trips [("é", ""), ("é", "a")] 3 #[1] [0x4e] short⟩

end RpcClient.Hessian
