/-!
Lists of keyed entries. A key may occur more than once; the first occurrence counts.
-/
namespace RpcClient.Entries

variable {α : Type}

def get? (key : String) : List (String × α) → Option α
  | [] => none
  | (k, v) :: rest => if k = key then some v else get? key rest

def contains (key : String) (entries : List (String × α)) : Bool :=
  (get? key entries).isSome

/-- Gives the first entry under `key` the value `f` of its old one. Without such an entry, puts one
at the end. -/
def alter (key : String) (f : Option α → α) : List (String × α) → List (String × α)
  | [] => [(key, f none)]
  | (k, v) :: rest => if k = key then (k, f (some v)) :: rest else (k, v) :: alter key f rest

/-- Gives the first entry under `key` the value `value`. Without such an entry, puts one at the
end. -/
def put (key : String) (value : α) (entries : List (String × α)) : List (String × α) :=
  alter key (fun _ => value) entries

def remove (key : String) (entries : List (String × α)) : List (String × α) :=
  entries.filter (·.1 ≠ key)

/-- Puts the entry in its place among entries sorted by key, for the one that has the key. -/
def insertSorted (key : String) (value : α) : List (String × α) → List (String × α)
  | [] => [(key, value)]
  | (k, v) :: rest =>
    if key < k then (key, value) :: (k, v) :: rest
    else if key = k then (key, value) :: rest
    else (k, v) :: insertSorted key value rest

/-- The entries sorted by key, each key once with the value of its last entry. -/
def sortedLast (entries : List (String × α)) : List (String × α) :=
  entries.foldl (fun sorted (key, value) => insertSorted key value sorted) []

end RpcClient.Entries
