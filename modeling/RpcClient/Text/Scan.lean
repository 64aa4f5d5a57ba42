/-!
Scanners: what reads something off the front of a text, or refuses. The second of two alternatives
starts where the first one started.
-/
namespace RpcClient

abbrev Scan (α : Type) := StateT (List Char) Option α

namespace Scan

def peek? : Scan (Option Char) := do
  return (← get).head?

def one (isWanted : Char → Bool) : Scan Char := do
  match ← get with
  | c :: rest =>
    guard (isWanted c)
    set rest
    return c
  | [] => failure

def any : Scan Char :=
  one fun _ => true

def skip (c : Char) : Scan Unit :=
  discard (one (· == c))

def skipText (text : String) : Scan Unit :=
  text.toList.forM skip

def takeWhile (isWanted : Char → Bool) : Scan (List Char) := do
  let chars ← get
  set (chars.dropWhile isWanted)
  return chars.takeWhile isWanted

def maybe {α : Type} (scan : Scan α) : Scan (Option α) :=
  (some <$> scan) <|> pure none

/-- Reads something as often as it is there, and at most `fuel` times. -/
def manyWithin {α : Type} (scan : Scan α) : (fuel : Nat) → Scan (List α)
  | 0 => return []
  | fuel + 1 => do
    match ← maybe scan with
    | none => return []
    | some a => return a :: (← manyWithin scan fuel)

/-- Reads something as often as it is there. It is read no more often than there are characters. -/
def many {α : Type} (scan : Scan α) : Scan (List α) := do
  manyWithin scan (← get).length

def oneOrMore {α : Type} (scan : Scan α) : Scan (List α) := do
  let first ← scan
  return first :: (← many scan)

/-- Reads things with a separator between them. There may be none. -/
def separated {α : Type} (separator : Scan Unit) (scan : Scan α) : Scan (List α) := do
  match ← maybe scan with
  | none => return []
  | some first => return first :: (← many (do separator; scan))

def finish : Scan Unit := do
  guard (← get).isEmpty

def readAll {α : Type} (scan : Scan α) (text : String) : Option α :=
  StateT.run' (do let a ← scan; finish; return a) text.toList

end Scan
end RpcClient
