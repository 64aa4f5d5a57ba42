import Mathlib.Data.Option.Basic
import RpcClient.Setting.Basic

/-! What becomes of a tree of settings when its texts are changed: at the end of every path there is a value of the
same form, and only texts differ. -/
namespace RpcClient.Setting

variable {f : String → String}

/-- The values right below a value. -/
def inner : Setting → List Setting
  | .list items => items
  | .table entries => entries.map Prod.snd
  | _ => []

/-- The value at the end of a path, which says for each level how many values there are in front. -/
def at? : Setting → (path : List Nat) → Option Setting
  | setting, [] => some setting
  | setting, place :: path => setting.inner[place]?.bind (·.at? path)

/-- The second value is the first one with `f` applied if it is a text. Of lists and tables only the number of values
and the keys count, in their order. -/
inductive Alike (f : String → String) : Setting → Setting → Prop
  | bool (value : Bool) : Alike f (.bool value) (.bool value)
  | unsigned (value : Nat) : Alike f (.unsigned value) (.unsigned value)
  | signed (value : Int) : Alike f (.signed value) (.signed value)
  | float (value : Option Double) : Alike f (.float value) (.float value)
  | char (value : Char) : Alike f (.char value) (.char value)
  | text (value : String) : Alike f (.text value) (.text (f value))
  | list {items items' : List Setting} : items.length = items'.length → Alike f (.list items) (.list items')
  | table {entries entries' : List (String × Setting)} :
      entries.map Prod.fst = entries'.map Prod.fst → Alike f (.table entries) (.table entries')

theorem mapItems_eq_map (items : List Setting) : mapItems f items = items.map (mapTexts f) := by
  induction items with
  | nil => rw [mapItems, List.map_nil]
  | cons item items ih => rw [mapItems, ih, List.map_cons]

theorem mapEntries_eq_map (entries : List (String × Setting)) :
    mapEntries f entries = entries.map (Prod.map id (mapTexts f)) := by
  induction entries with
  | nil => rw [mapEntries, List.map_nil]
  | cons entry entries ih => rw [mapEntries, ih, List.map_cons, Prod.map, id]

theorem alike_mapTexts (setting : Setting) : Alike f setting (setting.mapTexts f) := by
  cases setting with
  | bool | unsigned | signed | float | char | text => constructor
  | list items =>
    constructor
    rw [mapItems_eq_map, List.length_map]
  | table entries =>
    constructor
    rw [mapEntries_eq_map, List.map_map]
    rfl

theorem inner_mapTexts (setting : Setting) : (setting.mapTexts f).inner = setting.inner.map (mapTexts f) := by
  cases setting with
  | bool | unsigned | signed | float | char | text => rfl
  | list items => exact mapItems_eq_map items
  | table entries =>
    simp only [mapTexts, inner, mapEntries_eq_map, List.map_map]
    rfl

theorem at?_mapTexts (setting : Setting) (path : List Nat) :
    (setting.mapTexts f).at? path = (setting.at? path).map (mapTexts f) := by
  induction path generalizing setting with
  | nil => rfl
  | cons place path ih =>
    rw [at?, inner_mapTexts, List.getElem?_map, at?]
    cases setting.inner[place]? with
    | none => rfl
    | some value => exact ih value

theorem alike_at?_mapTexts (setting : Setting) (path : List Nat) :
    Option.Rel (Alike f) (setting.at? path) ((setting.mapTexts f).at? path) := by
  rw [at?_mapTexts]
  cases setting.at? path with
  | none => exact .none
  | some value => exact .some (alike_mapTexts value)

end RpcClient.Setting
