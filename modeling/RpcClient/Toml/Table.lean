import RpcClient.Setting.Basic

/-!
Tables of a TOML document while it is read. What may still be added to a table depends on how it
came about.
-/
namespace RpcClient.Toml

/-- How a table came about. -/
inductive Origin where
  | header
  /-- On the way to the table of a header. -/
  | path
  /-- On the way to the value of a key with dots. -/
  | dotted
  deriving DecidableEq, Repr, Inhabited

inductive Node where
  | value (setting : Setting)
  | table (origin : Origin) (entries : List (String × Node))
  /-- A list of tables that have a header each. -/
  | tables (items : List (List (String × Node)))
  deriving Inhabited

/-- What stands in a table under each key, in no particular order. -/
abbrev Entries := List (String × Node)

namespace Entries

/-- Changes the table at the end of a path, of which `here` is the origin of the table where it starts.
Tables that are missing on the way come about by `origin`. The way leads into the last table of a
list, but not into values, and a key with dots does not lead into a table with a header. -/
def alterAt (origin : Origin) (change : Origin → Entries → Option Entries) :
    (path : List String) → (here : Origin) → Entries → Option Entries
  | [], here, entries => change here entries
  | key :: path, _, entries =>
    match RpcClient.Entries.get? key entries with
    | none => do
      let inner ← alterAt origin change path origin []
      return RpcClient.Entries.put key (.table origin inner) entries
    | some (.value _) => none
    | some (.table inside inner) => do
      guard (origin ≠ .dotted ∨ inside ≠ .header)
      let inner ← alterAt origin change path inside inner
      return RpcClient.Entries.put key (.table inside inner) entries
    | some (.tables items) => do
      let last ← items.getLast?
      let last ← alterAt origin change path .header last
      return RpcClient.Entries.put key (.tables (items.dropLast ++ [last])) entries

/-- Puts a value under a key, which may have dots. Values are not replaced, and a key with dots adds
to no table that came about otherwise. -/
def insert (path : List String) (setting : Setting) (entries : Entries) : Option Entries := do
  let key ← path.getLast?
  let way := path.dropLast
  alterAt .dotted (fun here entries => do
    guard (way.isEmpty ∨ here = .dotted)
    guard !RpcClient.Entries.contains key entries
    return RpcClient.Entries.put key (.value setting) entries) way .header entries

def insertAll (pairs : List (List String × Setting)) (entries : Entries) : Option Entries :=
  pairs.foldlM (fun entries (path, setting) => entries.insert path setting) entries

end Entries

mutual

def Node.setting : Node → Setting
  | .value setting => setting
  | .table _ entries => .ofEntries (settingEntries entries)
  | .tables items => .list (settingTables items)

def settingEntries : List (String × Node) → List (String × Setting)
  | [] => []
  | (key, node) :: entries => (key, node.setting) :: settingEntries entries

def settingTables : List (List (String × Node)) → List Setting
  | [] => []
  | entries :: items => .ofEntries (settingEntries entries) :: settingTables items

end

def Entries.setting (entries : Entries) : Setting :=
  .ofEntries (settingEntries entries)

end RpcClient.Toml
