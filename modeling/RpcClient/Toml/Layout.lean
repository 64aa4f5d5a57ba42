import RpcClient.Text.Scan

/-!
What stands between the parts of a TOML document: blanks, comments and ends of lines.
-/
namespace RpcClient.Toml

open Scan

def isBlank (c : Char) : Bool :=
  c == ' ' || c == '\t'

def blanks : Scan Unit :=
  discard (takeWhile isBlank)

def newline : Scan Unit :=
  skip '\n' <|> skipText "\r\n"

/-- Whether a character may stand in a comment or a text. Controls may not, except for the
tabulator. -/
def isPlain (c : Char) : Bool :=
  c == '\t' || (' ' ≤ c && c ≠ '\x7f')

def comment : Scan Unit := do
  skip '#'
  discard (takeWhile isPlain)

/-- Steps over what may stand behind an expression, and over the end of its line. -/
def lineEnd : Scan Unit := do
  blanks
  discard (maybe comment)
  newline <|> finish

def space : Scan Unit :=
  discard (many (discard (one isBlank) <|> newline <|> comment))

end RpcClient.Toml
