import RpcClient.Setting.Basic

/-!
References to variables in texts: `${NAME}` stands for the value of a variable, and
`${NAME:-fallback}` for the fallback where the variable is not set. A text is read once from left to
right; what is put in is not read again.
-/
namespace RpcClient

/-- The variables of the environment by name, each name once. -/
abbrev Environment := List (String × String)

namespace Interpolation

/-- A reference as its name and its fallback, which stands behind the first `:-`. -/
def splitFallback : List Char → List Char × Option (List Char)
  | [] => ([], none)
  | ':' :: '-' :: fallback => ([], some fallback)
  | c :: rest =>
    let (name, fallback) := splitFallback rest
    (c :: name, fallback)

/-- What a reference stands for: the value of the variable, else the fallback, else nothing. -/
def expand (env : Environment) (reference : List Char) : List Char :=
  let (name, fallback) := splitFallback reference
  match Entries.get? (String.ofList name) env with
  | some value => value.toList
  | none => fallback.getD []

mutual

def readText (env : Environment) : List Char → List Char
  | [] => []
  | '$' :: '{' :: rest => readReference env [] rest
  | c :: rest => c :: readText env rest

/-- Reads a reference up to the next closing brace, or to the end if there is none. `reference` holds
what has been read of it, the last character in front. -/
def readReference (env : Environment) (reference : List Char) : List Char → List Char
  | [] => expand env reference.reverse
  | '}' :: rest => expand env reference.reverse ++ readText env rest
  | c :: rest => readReference env (c :: reference) rest

end

def interpolate (env : Environment) (text : String) : String :=
  String.ofList (readText env text.toList)

end Interpolation

/-- Replaces the references in every text. -/
def Setting.interpolate (env : Environment) (setting : Setting) : Setting :=
  setting.mapTexts (Interpolation.interpolate env)

end RpcClient
