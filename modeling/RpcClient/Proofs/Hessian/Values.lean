import RpcClient.Proofs.Hessian.Forms

/-! Trees of values. What a value adds to the table of classes are the definitions in it, and an instance has as
many fields as the table says where it stands. -/
namespace RpcClient.Hessian

/-! ### Types, lengths and classes -/

/-- The type of a list or map: a name, or the number of one named before. -/
inductive TypeForm where
  | named (name : StringForm)
  | numbered (number : IntForm)

def TypeForm.bytes : TypeForm → Bytes
  | .named name => name.bytes
  | .numbered number => number.bytes

inductive ListForm where
  | typed (type : TypeForm)
  | typedFixed (type : TypeForm) (length : IntForm)
  | untyped
  | fixed (length : IntForm)
  | shortTyped (type : TypeForm)
  | short

/-- Whether a list of `count` items may have this form. -/
def ListForm.Holds (count : Nat) : ListForm → Prop
  | .typed _ | .untyped => True
  | .typedFixed _ length | .fixed length => length.value = count
  | .shortTyped _ | .short => count < 8

def ListForm.front (count : Nat) : ListForm → Bytes
  | .typed type => 0x55 :: type.bytes
  | .typedFixed type length => 0x56 :: (type.bytes ++ length.bytes)
  | .untyped => [0x57]
  | .fixed length => 0x58 :: length.bytes
  | .shortTyped type => UInt8.ofNat (0x70 + count) :: type.bytes
  | .short => [UInt8.ofNat (0x78 + count)]

def ListForm.back : ListForm → Bytes
  | .typed _ | .untyped => [0x5a]
  | .typedFixed _ _ | .fixed _ | .shortTyped _ | .short => []

def mapFront : (type? : Option TypeForm) → Bytes
  | none => [0x48]
  | some type => 0x4d :: type.bytes

structure Definition where
  name : StringForm
  fields : List StringForm
  count : IntForm
  counted : count.value = fields.length

def Definition.bytes (definition : Definition) : Bytes :=
  0x43 :: (definition.name.bytes ++ (definition.count.bytes ++
    (definition.fields.map fun field => field.bytes).flatten))

/-- How an instance names its class. -/
inductive ClassForm where
  | full (number : Nat) (form : IntForm) (spelled : form.value = number)
  | short (number : Fin 16)

def ClassForm.number : ClassForm → Nat
  | .full number _ _ => number
  | .short number => number

def ClassForm.bytes : ClassForm → Bytes
  | .full _ form _ => 0x4f :: form.bytes
  | .short number => [UInt8.ofNat (0x60 + number)]

/-! ### Values -/

inductive Value where
  | atom (alone : Atom)
  | list (form : ListForm) (items : List Value)
  | map (type? : Option TypeForm) (entries : List (Value × Value))
  | defining (definition : Definition) (value : Value)
  | object (form : ClassForm) (fields : List Value)

namespace Value

mutual

def bytes : Value → Bytes
  | .atom alone => alone.bytes
  | .list form items => form.front items.length ++ (pieces items).flatten ++ form.back
  | .map type? entries => mapFront type? ++ (entryPieces entries).flatten ++ [0x5a]
  | .defining definition value => definition.bytes ++ value.bytes
  | .object form fields => form.bytes ++ (pieces fields).flatten

def pieces : List Value → List Bytes
  | [] => []
  | value :: values => value.bytes :: pieces values

def entryPieces : List (Value × Value) → List Bytes
  | [] => []
  | (key, value) :: entries => key.bytes :: value.bytes :: entryPieces entries

end

mutual

/-- How many levels there are below a value. -/
def depth : Value → Nat
  | .atom _ => 0
  | .list _ items => levels items
  | .map _ entries => entryLevels entries
  | .defining _ value => value.depth + 1
  | .object _ fields => levels fields

def levels : List Value → Nat
  | [] => 0
  | value :: values => max (value.depth + 1) (levels values)

def entryLevels : List (Value × Value) → Nat
  | [] => 0
  | (key, value) :: entries => max (max (key.depth + 1) (value.depth + 1)) (entryLevels entries)

end

mutual

/-- The numbers of fields of the classes that are defined in a value, in the order of the definitions. -/
def definitions : Value → Array Nat
  | .atom _ => #[]
  | .list _ items => allDefinitions items
  | .map _ entries => entryDefinitions entries
  | .defining definition value => #[definition.fields.length] ++ value.definitions
  | .object _ fields => allDefinitions fields

def allDefinitions : List Value → Array Nat
  | [] => #[]
  | value :: values => value.definitions ++ allDefinitions values

def entryDefinitions : List (Value × Value) → Array Nat
  | [] => #[]
  | (key, value) :: entries => key.definitions ++ (value.definitions ++ entryDefinitions entries)

end

mutual

/-- Whether a value may stand where `classes` are defined: lists have the lengths that they tell, and instances
the fields of their classes. -/
def Fits (classes : Array Nat) : Value → Prop
  | .atom _ => True
  | .list form items => form.Holds items.length ∧ AllFit classes items
  | .map _ entries => EntriesFit classes entries
  | .defining definition value => value.Fits (classes.push definition.fields.length)
  | .object form fields => classes[form.number]? = some fields.length ∧ AllFit classes fields

def AllFit (classes : Array Nat) : List Value → Prop
  | [] => True
  | value :: values => value.Fits classes ∧ AllFit (classes ++ value.definitions) values

def EntriesFit (classes : Array Nat) : List (Value × Value) → Prop
  | [] => True
  | (key, value) :: entries =>
    key.Fits classes ∧ value.Fits (classes ++ key.definitions) ∧
      EntriesFit (classes ++ key.definitions ++ value.definitions) entries

end

theorem length_pieces (values : List Value) : (pieces values).length = values.length := by
  induction values with
  | nil => rfl
  | cons value values ih => rw [pieces, List.length_cons, ih, List.length_cons]

end Value

/-! ### Stepping over what holds values -/

section

variable {position room : Nat} {classes classes' : Array Nat} {pieces : List Bytes}

theorem takes_skipType (position : Nat) (classes : Array Nat) (type : TypeForm) :
    Takes skipType position classes type.bytes () classes := by
  cases type with
  | named name => exact takes_skipType_string (takes_readString_form position classes name)
  | numbered number => exact takes_skipType_int (takes_readInt position classes number)

theorem ofByte_shortTypedList : ∀ count < 8, Tag.ofByte (UInt8.ofNat (0x70 + count)) = .shortTypedList count := by
  decide

theorem ofByte_shortList : ∀ count < 8, Tag.ofByte (UInt8.ofNat (0x78 + count)) = .shortList count := by
  decide

theorem ofByte_shortObject : ∀ number < 16, Tag.ofByte (UInt8.ofNat (0x60 + number)) = .shortObject number := by
  decide

theorem takes_skipWithin_list {form : ListForm} (holds : form.Holds pieces.length)
    (each : ∀ position, TakesEach (skipWithin room) position classes pieces classes') :
    Takes (skipWithin (room + 1)) position classes (form.front pieces.length ++ pieces.flatten ++ form.back) ()
      classes' := by
  have counted : ∀ position, Takes (times pieces.length (skipWithin room)) position classes pieces.flatten ()
      classes' := fun position => (each position).times
  have ended : ∀ position, Takes (untilEnd (skipWithin room)) position classes (pieces.flatten ++ [0x5a]) ()
      classes' := fun position => (each position).untilEnd (stopsAtEnd_skipWithin room)
  cases form with
  | typed type =>
    rw [ListForm.front, ListForm.back, List.append_assoc]
    exact takes_skipWithin_body rfl rfl rfl ((takes_skipType _ classes type).bind (ended _))
  | typedFixed type length =>
    rw [ListForm.front, ListForm.back, List.append_nil, List.cons_append, List.append_assoc]
    exact takes_skipWithin_body rfl rfl rfl
      ((takes_skipType _ classes type).bind ((takes_readLength _ classes holds).bind (counted _)))
  | untyped =>
    rw [ListForm.front, ListForm.back, List.append_assoc]
    exact takes_skipWithin_body rfl rfl rfl (ended _)
  | fixed length =>
    rw [ListForm.front, ListForm.back, List.append_nil]
    exact takes_skipWithin_body rfl rfl rfl ((takes_readLength _ classes holds).bind (counted _))
  | shortTyped type =>
    have tag := ofByte_shortTypedList _ holds
    rw [ListForm.front, ListForm.back, List.append_nil]
    refine takes_skipWithin_body tag rfl rfl ?_
    rw [skipBody, tag]
    exact (takes_skipType _ classes type).bind (counted _)
  | short =>
    have tag := ofByte_shortList _ holds
    rw [ListForm.front, ListForm.back, List.append_nil]
    refine takes_skipWithin_body tag rfl rfl ?_
    rw [skipBody, tag]
    exact counted _

theorem takes_skipWithin_map (type? : Option TypeForm)
    (each : ∀ position, TakesEach (skipWithin room) position classes pieces classes') :
    Takes (skipWithin (room + 1)) position classes (mapFront type? ++ pieces.flatten ++ [0x5a]) () classes' := by
  have ended : ∀ position, Takes (untilEnd (skipWithin room)) position classes (pieces.flatten ++ [0x5a]) ()
      classes' := fun position => (each position).untilEnd (stopsAtEnd_skipWithin room)
  rw [List.append_assoc]
  cases type? with
  | none => exact takes_skipWithin_body rfl rfl rfl (ended _)
  | some type => exact takes_skipWithin_body rfl rfl rfl ((takes_skipType _ classes type).bind (ended _))

theorem takes_fieldNames (position : Nat) (classes : Array Nat) (fields : List StringForm) :
    Takes (times fields.length (discard readString)) position classes
      (fields.map fun field => field.bytes).flatten () classes := by
  have each : ∀ piece ∈ fields.map fun field => field.bytes, ∀ position,
      Takes (discard readString) position classes piece () classes := by
    intro piece member position
    obtain ⟨field, -, rfl⟩ := List.mem_map.mp member
    exact (takes_readString_form position classes field).discard
  have names := (TakesEach.of_forall each position).times
  rwa [List.length_map] at names

/-- A definition takes a level, in front of the value that follows it. -/
theorem takes_skipWithin_definition (definition : Definition) {used : Bytes}
    (value : ∀ position,
      Takes (skipWithin room) position (classes.push definition.fields.length) used () classes') :
    Takes (skipWithin (room + 1)) position classes (definition.bytes ++ used) () classes' := by
  have defined : ∀ position, Takes (defineClass definition.fields.length) position classes [] ()
      (classes.push definition.fields.length) := fun _ _ => rfl
  rw [Definition.bytes, List.cons_append, List.append_assoc, List.append_assoc]
  apply takes_skipWithin_body rfl rfl rfl
  apply (takes_readString_form _ classes definition.name).discard.bind
  apply (takes_readLength _ classes definition.counted).bind
  apply (takes_fieldNames _ classes definition.fields).bind
  exact (defined _).bind (value _)

theorem takes_skipFields {number : Nat} (known : classes[number]? = some pieces.length)
    (each : TakesEach (skipWithin room) position classes pieces classes') :
    Takes (skipFields number (skipWithin room)) position classes pieces.flatten () classes' := by
  intro rest
  have known' : (Cursor.of position classes (pieces.flatten ++ rest)).classes[number]? = some pieces.length :=
    known
  rw [skipFields, bind_get, known']
  exact each.times rest

theorem takes_skipWithin_object {form : ClassForm} (known : classes[form.number]? = some pieces.length)
    (each : ∀ position, TakesEach (skipWithin room) position classes pieces classes') :
    Takes (skipWithin (room + 1)) position classes (form.bytes ++ pieces.flatten) () classes' := by
  cases form with
  | full number form spelled =>
    exact takes_skipWithin_body rfl rfl rfl
      ((takes_readLength _ classes spelled).bind (takes_skipFields known (each _)))
  | short number =>
    have tag := ofByte_shortObject number number.isLt
    refine takes_skipWithin_body tag rfl rfl ?_
    rw [skipBody, tag]
    exact takes_skipFields known (each _)

end

/-! ### Stepping over values -/

namespace Value

-- By recursion on the tree: a value starts with the table that those before it have left, and has one level less
-- than what holds it.
mutual

theorem takes_skipWithin (value : Value) (position : Nat) {classes : Array Nat} {room : Nat}
    (fits : value.Fits classes) (nested : value.depth ≤ room) :
    Takes (skipWithin (room + 1)) position classes value.bytes () (classes ++ value.definitions) := by
  cases value with
  | atom alone =>
    rw [definitions, Array.append_empty]
    exact takes_skipWithin_atom position classes room alone
  | list form items =>
    obtain ⟨holds, fits⟩ := fits
    rw [← length_pieces] at holds
    rw [bytes, ← length_pieces]
    exact takes_skipWithin_list holds fun position => takesEach_pieces items position fits nested
  | map type? entries =>
    exact takes_skipWithin_map type? fun position => takesEach_entryPieces entries position fits nested
  | defining definition value =>
    obtain ⟨room, rfl⟩ := Nat.exists_eq_add_of_lt nested
    have behind := fun position => takes_skipWithin value position fits (Nat.le_add_right _ room)
    rw [definitions, ← Array.append_assoc, ← Array.push_eq_append]
    exact takes_skipWithin_definition definition behind
  | object form fields =>
    obtain ⟨known, fits⟩ := fits
    rw [← length_pieces] at known
    exact takes_skipWithin_object known fun position => takesEach_pieces fields position fits nested

theorem takesEach_pieces (values : List Value) (position : Nat) {classes : Array Nat} {room : Nat}
    (fit : AllFit classes values) (nested : levels values ≤ room) :
    TakesEach (skipWithin room) position classes (pieces values) (classes ++ allDefinitions values) := by
  cases values with
  | nil => exact .nil
  | cons value values =>
    obtain ⟨fits, others⟩ := fit
    obtain ⟨lower, rest⟩ := Nat.max_le.mp nested
    obtain ⟨room, rfl⟩ := Nat.exists_eq_add_of_lt lower
    rw [allDefinitions, ← Array.append_assoc]
    exact .cons (takes_skipWithin value position fits (Nat.le_add_right _ room))
      (takesEach_pieces values _ others rest)

theorem takesEach_entryPieces (entries : List (Value × Value)) (position : Nat) {classes : Array Nat}
    {room : Nat} (fit : EntriesFit classes entries) (nested : entryLevels entries ≤ room) :
    TakesEach (skipWithin room) position classes (entryPieces entries) (classes ++ entryDefinitions entries) := by
  cases entries with
  | nil => exact .nil
  | cons entry entries =>
    obtain ⟨key, value⟩ := entry
    obtain ⟨keyFits, valueFits, others⟩ := fit
    obtain ⟨lower, rest⟩ := Nat.max_le.mp nested
    obtain ⟨keyLower, valueLower⟩ := Nat.max_le.mp lower
    cases room with
    | zero => cases keyLower
    | succ room =>
      rw [entryDefinitions, ← Array.append_assoc, ← Array.append_assoc]
      exact .cons (takes_skipWithin key position keyFits (Nat.le_of_succ_le_succ keyLower))
        (.cons (takes_skipWithin value _ valueFits (Nat.le_of_succ_le_succ valueLower))
          (takesEach_entryPieces entries _ others rest))

end

end Value

/-- A value is stepped over, whatever stands around it, and its definitions are added to the table. -/
theorem value_skipped (value : Value) (position : Nat) (classes : Array Nat) (rest : Bytes)
    (fits : value.Fits classes) (nested : value.depth ≤ 64) :
    skipValue (.of position classes (value.bytes ++ rest)) =
      .ok () (.of (position + value.bytes.length) (classes ++ value.definitions) rest) :=
  value.takes_skipWithin position fits nested rest

def chunkedText : StringForm where
  chunks := ["é"]
  last := "a"
  ending := .long
  chunks_fit := by decide
  last_fits := by decide

def chunkedData : BinaryForm where
  chunks := [[1, 2]]
  last := [3]
  ending := .long
  chunks_fit := by decide
  last_fits := by decide

def pointClass : Definition where
  name := { chunks := [], last := "P", ending := .short, chunks_fit := by decide, last_fits := by decide }
  fields := [{ chunks := [], last := "x", ending := .short, chunks_fit := by decide, last_fits := by decide }]
  count := .tiny 1 (by decide)
  counted := rfl

/-- A list with a class, two instances of it, and a map in one of them. -/
def pointList : Value :=
  .list .untyped [
    .defining pointClass (.object (.full 1 (.tiny 1 (by decide)) rfl) [.atom (.string chunkedText)]),
    .object (.short 1) [
      .map (some (.numbered (.tiny 0 (by decide)))) [
        (.atom .null, .atom (.binary chunkedData (.inr rfl)))]]]

theorem pointList_skipped :
    pointList.Fits #[2] ∧ pointList.depth = 3 ∧
      pointList.bytes = [0x57, 0x43, 1, 0x50, 0x91, 1, 0x78, 0x4f, 0x91, 0x52, 0, 1, 0xc3, 0xa9, 0x53, 0, 1, 0x61,
        0x61, 0x4d, 0x90, 0x4e, 0x41, 0, 2, 1, 2, 0x42, 0, 1, 3, 0x5a, 0x5a] ∧
      skipValue (.of 5 #[2] (pointList.bytes ++ [0x4e])) = .ok () (.of 38 #[2, 1] [0x4e]) := by
  have fits : pointList.Fits #[2] :=
    ⟨trivial, ⟨rfl, trivial, trivial⟩, ⟨rfl, ⟨trivial, trivial, trivial⟩, trivial⟩, trivial⟩
  exact ⟨fits, by decide, by decide, value_skipped pointList 5 #[2] [0x4e] fits (by decide)⟩

end RpcClient.Hessian
