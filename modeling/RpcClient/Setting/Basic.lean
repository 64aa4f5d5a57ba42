import RpcClient.Json.Value

/-!
Settings as trees of values, wherever they come from.
-/
namespace RpcClient

/-- A value among settings. The entries of a table are sorted by key and each key occurs once. -/
inductive Setting where
  | bool (value : Bool)
  | unsigned (value : Nat)
  | signed (value : Int)
  /-- A floating point number; `none` is one that is not finite. -/
  | float (value : Option Double)
  /-- A single character, which may stand for a text. -/
  | char (value : Char)
  | text (value : String)
  | list (items : List Setting)
  | table (entries : List (String × Setting))
  deriving Repr, Inhabited

namespace Setting

/-- A table with these entries, of which the last under a key counts. -/
def ofEntries (entries : List (String × Setting)) : Setting :=
  .table (Entries.sortedLast entries)

def kind : Setting → String
  | .bool _ => "bool"
  | .unsigned _ => "unsigned"
  | .signed _ => "signed"
  | .float _ => "float"
  | .char _ | .text _ => "string"
  | .list _ => "array"
  | .table _ => "map"

mutual

/-- Changes every text. Keys stay as they are. -/
def mapTexts (f : String → String) : Setting → Setting
  | .text value => .text (f value)
  | .list items => .list (mapItems f items)
  | .table entries => .table (mapEntries f entries)
  | setting => setting

def mapItems (f : String → String) : List Setting → List Setting
  | [] => []
  | item :: items => mapTexts f item :: mapItems f items

def mapEntries (f : String → String) : List (String × Setting) → List (String × Setting)
  | [] => []
  | (key, value) :: entries => (key, mapTexts f value) :: mapEntries f entries

end

mutual

/-- Lays one value over another. Tables are laid over each other key by key; any other value takes
the place of what was there. -/
def overlay : (below above : Setting) → Setting
  | .table below, .table above => .table (overlayEntries below above)
  | _, above => above

def overlayEntries : (below above : List (String × Setting)) → List (String × Setting)
  | [], above => above
  | (key, value) :: below, above =>
    let rest := overlayEntries below (Entries.remove key above)
    match Entries.get? key above with
    | none => Entries.insertSorted key value rest
    | some other => Entries.insertSorted key (overlay value other) rest

end

mutual

def toJson : Setting → Json
  | .bool value => .bool value
  | .unsigned value => .number (.int value)
  | .signed value => .number (.int value)
  | .float value => (value.map fun x => Json.number (.float x)).getD .null
  | .char value => .string value.toString
  | .text value => .string value
  | .list items => .array (itemsToJson items)
  | .table entries => .object (entriesToJson entries)

def itemsToJson : List Setting → List Json
  | [] => []
  | item :: items => item.toJson :: itemsToJson items

def entriesToJson : List (String × Setting) → List (String × Json)
  | [] => []
  | (key, value) :: entries => (key, value.toJson) :: entriesToJson entries

end

end Setting
end RpcClient
