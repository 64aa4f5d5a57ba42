import RpcClient.Json.Draft

/-!
Reading drafts as values of a known shape. Faults are met in the order of the text: a value of the
wrong shape counts before whatever is wrong behind it.
-/
namespace RpcClient.Json

/-- Reads a draft with room for this many levels of arrays and objects. -/
abbrev Decoder (α : Type) := (room : Nat) → Draft → Except Fault α

def maxDepth : Nat := 127

namespace Draft

def mismatchFault : Draft → Fault
  | .broken at_ => at_.read
  | .hugeNumber | .badString => .malformed
  | _ => .mismatch

/-- The fault of a draft that is stepped over. -/
def skippedFault? (d : Draft) : Option Fault :=
  d.break?.map (·.skipped)

end Draft

namespace Decoder

def finish (end? : Option Break) : Except Fault Unit :=
  match end? with
  | none => .ok ()
  | some at_ => .error at_.read

/-- Reads any value. Of members under the same key, the last counts. -/
def value : Decoder Json
  | _, .null => .ok .null
  | _, .bool b => .ok (.bool b)
  | _, .number n => .ok (.number n)
  | _, .string s => .ok (.string s)
  | 0, .array _ _ => .error .malformed
  | room + 1, .array items end? => do
    let items ← items.mapM (value room)
    finish end?
    return .array items
  | 0, .object _ _ => .error .malformed
  | room + 1, .object members end? => do
    let members ← members.mapM fun (key, d) => do
      match key with
      | none => throw .malformed
      | some key => return (key, ← value room d)
    finish end?
    return .ofMembers members
  | _, d => .error d.mismatchFault

def string : Decoder String
  | _, .string s => .ok s
  | _, d => .error d.mismatchFault

def natural : Decoder Nat
  | _, .number (.int (.ofNat n)) => .ok n
  | _, d => .error d.mismatchFault

def list {α : Type} (item : Decoder α) : Decoder (List α)
  | 0, .array _ _ => .error .malformed
  | room + 1, .array items end? => do
    let items ← items.mapM (item room)
    finish end?
    return items
  | _, d => .error d.mismatchFault

/-- Reads a null as `none`. -/
def optional {α : Type} (some_ : Decoder α) : Decoder (Option α)
  | _, .null => .ok none
  | room, d => some <$> some_ room d

/-- Reads an object whose members all have values of one shape, in the order of the text. -/
def members {α : Type} (value : Decoder α) : Decoder (List (String × α))
  | 0, .object _ _ => .error .malformed
  | room + 1, .object members end? => do
    let members ← members.mapM fun (key, d) => do
      match key with
      | none => throw .malformed
      | some key => return (key, ← value room d)
    finish end?
    return members
  | _, d => .error d.mismatchFault

structure Field (σ : Type) where
  name : String
  read : Draft → σ → (room : Nat) → Except Fault σ

def field {σ α : Type} (name : String) (decoder : Decoder α) (set : α → σ → σ) : Field σ where
  name
  read d record room := (set · record) <$> decoder room d

/-- Reads members into a record. A field may occur once; members of other names are stepped over. -/
def readMembers {σ : Type} (fields : List (Field σ)) (room : Nat) (end? : Option Break) :
    (seen : List String) → (record : σ) → List (Option String × Draft) → Except Fault σ
  | _, record, [] => do
    finish end?
    return record
  | _, _, (none, _) :: _ => .error .malformed
  | seen, record, (some key, d) :: rest =>
    match fields.find? (·.name == key) with
    | some field =>
      if seen.contains key then .error .mismatch
      else do
        let record ← field.read d record room
        readMembers fields room end? (key :: seen) record rest
    | none =>
      match d.skippedFault? with
      | some fault => .error fault
      | none => readMembers fields room end? seen record rest

/-- Reads items into the fields of a record, in the order of the fields. Fields at the end may be
missing. -/
def readItems {σ : Type} (room : Nat) (end? : Option Break) :
    (fields : List (Field σ)) → (record : σ) → List Draft → Except Fault σ
  | _, record, [] => do
    finish end?
    return record
  | [], _, _ :: _ => .error .malformed
  | field :: fields, record, d :: rest => do
    let record ← field.read d record room
    readItems room end? fields record rest

/-- Reads a record from an object with its fields as members, or from an array of them. `complete`
refuses records that lack a field. -/
def record {σ α : Type} (fields : List (Field σ)) (start : σ) (complete : σ → Option α) : Decoder α
  | 0, .object _ _ | 0, .array _ _ => .error .malformed
  | room + 1, .object members end? => do
    let record ← readMembers fields room end? [] start members
    (complete record).elim (.error .mismatch) .ok
  | room + 1, .array items end? => do
    let record ← readItems room end? fields start items
    (complete record).elim (.error .mismatch) .ok
  | _, d => .error d.mismatchFault

/-- Reads one of two shapes, trying `first` before `second`. The text is checked to be JSON before
either is tried. -/
def either {α β : Type} (first : Decoder α) (second : Decoder β) : Decoder (α ⊕ β) := fun room d => do
  discard (value room d)
  match first room d with
  | .ok a => return .inl a
  | .error _ =>
    match second room d with
    | .ok b => return .inr b
    | .error _ => throw .mismatch

def run {α : Type} (decoder : Decoder α) (text : Bytes) : Except Fault α := do
  let (d, hasMore) := draft text
  let a ← decoder maxDepth d
  if hasMore then throw .malformed
  return a

end Decoder

def parse (text : Bytes) : Except Fault Json :=
  Decoder.run Decoder.value text

end RpcClient.Json
