import RpcClient.Setting.Basic

/-!
Reading settings as values of a known shape. A flaw comes with the path to where it is. Tables are
read in the order of their keys, so that of several flaws the one with the smallest key counts.
-/
namespace RpcClient.Setting

inductive Flaw where
  | wrongKind (found : Setting)
  /-- It is of the wanted kind, but no possible value. -/
  | wrongValue (found : Setting)
  | missing (name : String)
  /-- It has none of the shapes that it may have. -/
  | noShape
  /-- A list that stands for a table has too few items. -/
  | tooShort (length : Nat)
  deriving Inhabited

def Flaw.message : Flaw → String
  | .wrongKind found => s!"invalid type: found {found.kind}"
  | .wrongValue found => s!"invalid value: found {found.kind}"
  | .missing name => s!"missing field {name}"
  | .noShape => "no variant matches"
  | .tooShort length => s!"invalid length {length}"

/-- A flaw, with the keys and the indices that lead to it. -/
structure Misfit where
  flaw : Flaw
  path : List String := []
  deriving Inhabited

namespace Misfit

def place (misfit : Misfit) : String :=
  String.intercalate "." misfit.path

def message (misfit : Misfit) : String :=
  if misfit.path.isEmpty then misfit.flaw.message
  else s!"{misfit.flaw.message} for key {misfit.place}"

end Misfit

abbrev Decoder (α : Type) := Setting → Except Misfit α

namespace Decoder

def refuse {α : Type} (flaw : Flaw) : Except Misfit α :=
  .error { flaw }

def at_ {α : Type} (key : String) (result : Except Misfit α) : Except Misfit α :=
  result.mapError fun misfit => { misfit with path := key :: misfit.path }

/-- Reads a text, or a single character as one. -/
def string : Decoder String
  | .text value => .ok value
  | .char value => .ok value.toString
  | setting => refuse (.wrongKind setting)

def natural : Decoder Nat
  | .unsigned value => .ok value
  | .signed (.ofNat value) => .ok value
  | .signed value => refuse (.wrongValue (.signed value))
  | setting => refuse (.wrongKind setting)

/-- Reads the items of a list, of which the first has the index `index`. -/
def items {α : Type} (item : Decoder α) : (index : Nat) → List Setting → Except Misfit (List α)
  | _, [] => .ok []
  | index, setting :: settings => do
    let first ← at_ (toString index) (item setting)
    return first :: (← items item (index + 1) settings)

def list {α : Type} (item : Decoder α) : Decoder (List α)
  | .list settings => items item 0 settings
  | setting => refuse (.wrongKind setting)

/-- Reads a table whose values all have one shape. -/
def entries {α : Type} (value : Decoder α) : Decoder (List (String × α))
  | .table entries => entries.mapM fun (key, setting) => do
    return (key, ← at_ key (value setting))
  | setting => refuse (.wrongKind setting)

structure Field (σ : Type) where
  name : String
  /-- Whether there is no record without it. -/
  isRequired : Bool
  read : Setting → σ → Except Misfit σ

/-- A field that a decoder reads and `set` puts into the record. -/
def field {σ α : Type} (name : String) (decoder : Decoder α) (set : α → σ → σ) : Field σ where
  name
  isRequired := false
  read setting record := (set · record) <$> decoder setting

def required {σ α : Type} (name : String) (decoder : Decoder α) (set : α → σ → σ) : Field σ :=
  { field name decoder set with isRequired := true }

/-- Reads the entries of a table into a record. Those of other names are stepped over. -/
def readEntries {σ : Type} (fields : List (Field σ)) (record : σ)
    (entries : List (String × Setting)) : Except Misfit σ :=
  entries.foldlM (fun record (key, setting) =>
    match fields.find? (·.name == key) with
    | some field => at_ key (field.read setting record)
    | none => .ok record) record

/-- Reads the items of a list into the fields of a record, in the order of the fields. Items behind
the last field are stepped over. -/
def readItems {σ : Type} : (index : Nat) → (fields : List (Field σ)) → (record : σ) →
    List Setting → Except Misfit σ
  | _, [], record, _ => .ok record
  | index, field :: fields, record, [] =>
    if field.isRequired then refuse (.tooShort index) else readItems (index + 1) fields record []
  | index, field :: fields, record, setting :: settings => do
    let record ← at_ (toString index) (field.read setting record)
    readItems (index + 1) fields record settings

/-- Reads a record from a table with its fields as entries, or from a list of them. `start` is the
record before any field is read. -/
def record {σ : Type} (fields : List (Field σ)) (start : σ) : Decoder σ
  | .table entries => do
    let record ← readEntries fields start entries
    match fields.find? fun field => field.isRequired && !Entries.contains field.name entries with
    | some field => refuse (.missing field.name)
    | none => return record
  | .list settings => readItems 0 fields start settings
  | setting => refuse (.wrongKind setting)

def json : Decoder Json := fun setting =>
  .ok setting.toJson

/-- Reads a text. A single character is none. -/
def text : Decoder String
  | .text value => .ok value
  | setting => refuse (.wrongKind setting)

/-- Reads a record as `record` does, but from no list with items behind the last field. -/
def exactRecord {σ : Type} (fields : List (Field σ)) (start : σ) : Decoder σ := fun setting =>
  match setting with
  | .list settings =>
    if fields.length < settings.length then refuse (.wrongValue setting)
    else record fields start setting
  | _ => record fields start setting

/-- Reads one of two shapes, trying `first` before `second`. -/
def either {α β : Type} (first : Decoder α) (second : Decoder β) : Decoder (α ⊕ β) := fun setting =>
  match first setting with
  | .ok a => .ok (.inl a)
  | .error _ =>
    match second setting with
    | .ok b => .ok (.inr b)
    | .error _ => refuse .noShape

end Decoder
end RpcClient.Setting
