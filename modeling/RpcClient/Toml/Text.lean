import RpcClient.Text.Number
import RpcClient.Toml.Layout

/-!
Texts and keys of TOML.
-/
namespace RpcClient.Toml

open Scan

/-- Reads a character that is given by `count` hexadecimal digits. -/
def codePoint (count : Nat) : Scan Char := do
  let digits ← (List.replicate count ()).mapM fun _ => do
    match Number.digitValue? 16 (← any) with
    | some digit => pure digit
    | none => failure
  let n := Number.ofDigits 16 digits
  guard n.isValidChar
  return Char.ofNat n

def escape : Scan Char := do
  skip '\\'
  match ← any with
  | 'b' => return '\x08'
  | 't' => return '\t'
  | 'n' => return '\n'
  | 'f' => return '\x0c'
  | 'r' => return '\r'
  | '"' => return '"'
  | '\\' => return '\\'
  | 'u' => codePoint 4
  | 'U' => codePoint 8
  | _ => failure

def isBasic (c : Char) : Bool :=
  isPlain c && c ≠ '"' && c ≠ '\\'

def basicChar : Scan Char :=
  one isBasic <|> escape

def literalChar : Scan Char :=
  one fun c => isPlain c && c ≠ '\''

def lineText (quote : Char) (char : Scan Char) : Scan String := do
  skip quote
  let chars ← many char
  skip quote
  return String.ofList chars

def quoted : Scan String :=
  lineText '"' basicChar <|> lineText '\'' literalChar

/-- Steps over a backslash at the end of a line with all white space behind it. -/
def continuation : Scan (List Char) := do
  skip '\\'
  blanks
  newline
  discard (many (discard (one isBlank) <|> newline))
  return []

/-- Reads a piece of a text of several lines. The end of a line is one line feed. -/
def basicPiece : Scan (List Char) :=
  (do return [← basicChar]) <|> (do newline; return ['\n']) <|> continuation

def literalPiece : Scan (List Char) :=
  (do return [← literalChar]) <|> (do newline; return ['\n'])

/-- Reads a text of several lines behind its opening quotes. Up to two quotes are part of the text,
also in front of the closing ones. -/
def linesWithin (quote : Char) (piece : Scan (List Char)) : (fuel : Nat) → Scan (List Char)
  | 0 => failure
  | fuel + 1 => do
    let quotes := ((← get).takeWhile (· == quote)).length
    if quotes = 0 then
      let chars ← piece
      return chars ++ (← linesWithin quote piece fuel)
    else if quotes < 3 then
      modify (·.drop quotes)
      return List.replicate quotes quote ++ (← linesWithin quote piece fuel)
    else
      modify (·.drop (min quotes 5))
      return List.replicate (min quotes 5 - 3) quote

/-- Reads a text of several lines. The end of the line with the opening quotes is no part of it. -/
def linesText (quote : Char) (piece : Scan (List Char)) : Scan String := do
  (List.replicate 3 quote).forM skip
  discard (maybe newline)
  return String.ofList (← linesWithin quote piece ((← get).length + 1))

def text : Scan String :=
  linesText '"' basicPiece <|> linesText '\'' literalPiece <|> quoted

/-- How deep lists and inline tables may be nested, and how many parts a key may have. -/
def maxDepth : Nat := 79

def isKeyChar (c : Char) : Bool :=
  c.isAlphanum || c == '_' || c == '-'

def bareKey : Scan String := do
  let chars ← takeWhile isKeyChar
  guard !chars.isEmpty
  return String.ofList chars

def keyPart : Scan String := do
  blanks
  let part ← quoted <|> bareKey
  blanks
  return part

def key : Scan (List String) := do
  let parts ← separated (skip '.') keyPart
  guard (0 < parts.length ∧ parts.length ≤ maxDepth)
  return parts

end RpcClient.Toml
