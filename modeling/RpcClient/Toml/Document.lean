import RpcClient.Toml.Value

/-!
TOML documents: values under keys, and tables that headers open.
-/
namespace RpcClient.Toml

open Scan

/-- A header. The table that it opens stands at the end of its path. -/
structure Header where
  /-- Whether the table is a new one in a list of tables. -/
  isItem : Bool
  path : List String
  deriving DecidableEq, Repr, Inhabited

inductive Line where
  | blank
  | header (header : Header)
  | pair (path : List String) (setting : Setting)
  deriving Inhabited

def header : Scan Header :=
  (do
    skipText "[["
    let path ← key
    skipText "]]"
    return { isItem := true, path })
  <|> (do
    skip '['
    let path ← key
    skip ']'
    return { isItem := false, path })

def line : Scan Line := do
  blanks
  match ← peek? with
  | none => failure
  | some '\n' | some '\r' =>
    newline
    return .blank
  | some '#' =>
    lineEnd
    return .blank
  | some '[' =>
    let header ← header
    lineEnd
    return .header header
  | some _ =>
    let (path, setting) ← pair (value maxDepth)
    lineEnd
    return .pair path setting

/-- Reads the lines of a document, which may have a byte order mark in front. -/
def lines : Scan (List Line) := do
  discard (maybe (skip '\ufeff'))
  let lines ← many line
  blanks
  return lines

structure Section where
  header : Header
  pairs : List (List String × Setting)
  deriving Inhabited

/-- Cuts lines into those in front of the first header and the sections behind it. -/
def sections : List Line → List (List String × Setting) × List Section
  | [] => ([], [])
  | .blank :: lines => sections lines
  | .pair path setting :: lines =>
    let (pairs, rest) := sections lines
    ((path, setting) :: pairs, rest)
  | .header header :: lines =>
    let (pairs, rest) := sections lines
    ([], { header, pairs } :: rest)

/-- Adds a section. A header opens a new table, a new one of a list, or one that came about on the
way to others; it opens no table twice. -/
def Entries.addSection (entries : Entries) (section_ : Section) : Option Entries := do
  let key ← section_.header.path.getLast?
  alterAt .path (fun _ entries =>
    match section_.header.isItem, RpcClient.Entries.get? key entries with
    | false, none => do
      let inner ← insertAll section_.pairs []
      return RpcClient.Entries.put key (.table .header inner) entries
    | false, some (.table .path inner) => do
      let inner ← insertAll section_.pairs inner
      return RpcClient.Entries.put key (.table .header inner) entries
    | true, none => do
      let inner ← insertAll section_.pairs []
      return RpcClient.Entries.put key (.tables [inner]) entries
    | true, some (.tables items) => do
      let inner ← insertAll section_.pairs []
      return RpcClient.Entries.put key (.tables (items ++ [inner])) entries
    | _, _ => none) section_.header.path.dropLast .header entries

def parse (document : String) : Option Setting := do
  let (pairs, sections) := sections (← lines.readAll document)
  let entries ← Entries.insertAll pairs []
  let entries ← sections.foldlM Entries.addSection entries
  return entries.setting

end RpcClient.Toml
