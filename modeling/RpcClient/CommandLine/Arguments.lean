import RpcClient.CommandLine.Help
import RpcClient.Text.Blank
import RpcClient.Text.Number

/-!
The arguments of the command line.

Arguments are read from the left; the first one that is wrong, or that asks for help or for the
version, decides. An option stands as `--name value`, `--name=value`, `-n value`, `-nvalue` or
`-n=value`. Behind `--` there are no options. An option in front of the command whose value is an
argument of its own is looked at late: when the next option comes there, or when all is read.
-/
namespace RpcClient.CommandLine

structure CallArguments where
  invoker : String
  id : String := "1"
  method : String := ""
  /-- The headers in the order in which they were given. -/
  headers : List (String × String) := []
  timeoutMs : Nat := 0
  data : String
  deriving DecidableEq, Repr, Inhabited

inductive Command where
  | invoke (call : CallArguments)
  | check
  deriving DecidableEq, Repr, Inhabited

structure Arguments where
  config : String
  command : Command
  deriving DecidableEq, Repr, Inhabited

inductive Stop where
  | help (topic : Topic)
  | version
  | usage
  deriving DecidableEq, Repr, Inhabited

inductive OptionName where
  | config
  | invoker
  | id
  | method
  | header
  | timeout
  deriving DecidableEq, Repr, Inhabited

/-- Where an argument stands: in front of the command, or behind one. -/
inductive Place where
  | front
  | invoke
  | check
  deriving DecidableEq, Repr, Inhabited

/-- What help is about where it is asked for. -/
def Place.topic : Place → Topic
  | .front => .program
  | .invoke => .invoke
  | .check => .check

namespace OptionName

/-- The options with their short and long names. -/
def all : List (OptionName × Option Char × String) :=
  [(.config, some 'c', "config"), (.invoker, some 'i', "invoker"), (.id, none, "id"),
    (.method, some 'm', "method"), (.header, some 'H', "header"), (.timeout, some 't', "timeout")]

/-- Whether an option may stand somewhere. The path of the configuration may stand anywhere, the
other options describe a call. -/
def isAllowed (option : OptionName) (place : Place) : Bool :=
  option == .config || place == .invoke

/-- Whether an option may stand more than once behind a command. -/
def isRepeatable (option : OptionName) : Bool :=
  option == .header

def ofShort? (place : Place) (c : Char) : Option OptionName :=
  (all.find? fun (option, short, _) => short == some c && option.isAllowed place).map (·.1)

def ofLong? (place : Place) (name : List Char) : Option OptionName :=
  (all.find? fun (option, _, long) => long.toList == name && option.isAllowed place).map (·.1)

end OptionName

/-- The key and the value of a header, which stand around the first equals sign. -/
def header? (text : String) : Option (String × String) :=
  match text.toList.dropWhile (· ≠ '=') with
  | [] => none
  | _ :: value =>
    some (Blank.trim (String.ofList (text.toList.takeWhile (· ≠ '='))),
      Blank.trim (String.ofList value))

/-- The number of milliseconds that a text gives. There may be a minus sign in front of zero. -/
def milliseconds? (text : String) : Option Nat :=
  match text.toList with
  | '-' :: digits => Number.read?.readDigits? 1 digits
  | _ => Number.read? UInt32.size text

/-- Whether an option takes a value. A configuration needs a path, a header an equals sign, and a
timeout is a number. -/
def OptionName.accepts (option : OptionName) (value : String) : Bool :=
  match option with
  | .config => value ≠ ""
  | .header => (header? value).isSome
  | .timeout => (milliseconds? value).isSome
  | .invoker | .id | .method => true

structure Draft where
  place : Place := .front
  /-- The options in front of the command. -/
  outer : List (OptionName × String) := []
  /-- The option in front of the command that is still to be looked at. -/
  late : Option (OptionName × String) := none
  /-- The options behind the command, the last one in front. -/
  inner : List (OptionName × String) := []
  /-- What the command is given besides its options. -/
  data : Option String := none

namespace Draft

/-- Adds an option to those that stand at one place. -/
def insert (options : List (OptionName × String)) (option : OptionName) (value : String) :
    Except Stop (List (OptionName × String)) :=
  let isTwice := !option.isRepeatable && options.any (·.1 == option)
  if isTwice || !option.accepts value then .error .usage else .ok ((option, value) :: options)

/-- Looks at the option that is still to be looked at. -/
def settle (draft : Draft) : Except Stop Draft :=
  match draft.late with
  | none => .ok draft
  | some (option, value) => do
    return { draft with outer := ← insert draft.outer option value, late := none }

/-- Comes to the next option. -/
def toOption (draft : Draft) : Except Stop Draft :=
  if draft.place = .front then draft.settle else .ok draft

/-- Adds an option whose value is a part of the same argument. -/
def addOption (draft : Draft) (option : OptionName) (value : String) : Except Stop Draft :=
  if draft.place = .front then do
    return { draft with outer := ← insert draft.outer option value }
  else do
    return { draft with inner := ← insert draft.inner option value }

/-- Adds an option whose value is an argument of its own. -/
def addApart (draft : Draft) (option : OptionName) (value : String) : Except Stop Draft :=
  if draft.place = .front then .ok { draft with late := some (option, value) }
  else draft.addOption option value

/-- Adds what a command is given. Only a call is given something, and only one thing. -/
def addData (draft : Draft) (value : String) : Except Stop Draft :=
  if draft.place = .invoke ∧ draft.data.isNone then .ok { draft with data := some value }
  else .error .usage

/-- The value of an option. Behind the command it counts more than in front of it. -/
def value? (draft : Draft) (option : OptionName) : Option String :=
  ((draft.inner ++ draft.outer).find? (·.1 == option)).map (·.2)

def headers (draft : Draft) : List (String × String) :=
  draft.inner.reverse.filterMap fun (option, value) =>
    if option = .header then header? value else none

/-- The arguments, if nothing is missing. -/
def complete (draft : Draft) : Except Stop Arguments :=
  let config := (draft.value? .config).getD "tether.toml"
  match draft.place, draft.value? .invoker, draft.data with
  | .check, _, _ => .ok { config, command := .check }
  | .invoke, some invoker, some data =>
    .ok {
      config
      command := .invoke {
        invoker
        id := (draft.value? .id).getD "1"
        method := (draft.value? .method).getD ""
        headers := draft.headers
        timeoutMs := ((draft.value? .timeout).bind milliseconds?).getD 0
        data } }
  | _, _, _ => .error .usage

end Draft

inductive Word where
  /-- Behind it there are no options. -/
  | separator
  /-- With the value behind an equals sign, if there is one. -/
  | long (name : List Char) (value : Option String)
  /-- The characters behind a single dash. -/
  | short (first : Char) (rest : List Char)
  | plain
  deriving DecidableEq, Repr, Inhabited

/-- The shape of an argument. A single dash is no option. -/
def Word.ofChars : List Char → Word
  | ['-', '-'] => .separator
  | '-' :: '-' :: chars =>
    .long (chars.takeWhile (· ≠ '=')) <|
      match chars.dropWhile (· ≠ '=') with
      | [] => none
      | _ :: value => some (String.ofList value)
  | '-' :: first :: rest => .short first rest
  | _ => .plain

def Word.ofString (argument : String) : Word :=
  .ofChars argument.toList

/-- What the command `help` does with what it is asked about. -/
def helpOn : List String → Stop
  | [] => .help .program
  | ["invoke"] => .help .invoke
  | ["check"] => .help .check
  | ["help"] => .help .help
  | _ => .usage

/-- What a short option stands for that has no value. -/
def shortStop? (place : Place) (c : Char) : Option Stop :=
  if c = 'h' then some (.help place.topic)
  else if c = 'V' ∧ place = .front then some .version
  else none

def longStop? (place : Place) (name : List Char) : Option Stop :=
  if name = "help".toList then some (.help place.topic)
  else if name = "version".toList ∧ place = .front then some .version
  else none

def readFrom (draft : Draft) : List String → Except Stop Draft
  | [] => .ok draft
  | word :: words =>
    match Word.ofString word with
    | .separator => words.foldlM Draft.addData draft
    | .long name value? => do
      let draft ← draft.toOption
      match longStop? draft.place name, OptionName.ofLong? draft.place name, value? with
      | some stop, _, none => .error stop
      | _, some option, some value => readFrom (← draft.addOption option value) words
      | _, some option, none => readValue draft option words
      | _, none, _ => .error .usage
    | .short first rest => do
      let draft ← draft.toOption
      match shortStop? draft.place first, OptionName.ofShort? draft.place first, rest with
      | some stop, _, _ => .error stop
      | none, some option, [] => readValue draft option words
      | none, some option, '=' :: value =>
        readFrom (← draft.addOption option (String.ofList value)) words
      | none, some option, value =>
        readFrom (← draft.addOption option (String.ofList value)) words
      | none, none, _ => .error .usage
    | .plain =>
      match draft.place, word with
      | .front, "invoke" => readFrom { draft with place := .invoke } words
      | .front, "check" => readFrom { draft with place := .check } words
      | .front, "help" => .error (helpOn words)
      | .front, _ => .error .usage
      | _, _ => do readFrom (← draft.addData word) words
where
  /-- Reads the arguments that are left, of which the first is the value of an option. -/
  readValue (draft : Draft) (option : OptionName) : List String → Except Stop Draft
    | [] => .error .usage
    | value :: words =>
      match Word.ofString value with
      | .plain => do readFrom (← draft.addApart option value) words
      | _ => .error .usage

def Arguments.parse (words : List String) : Except Stop Arguments := do
  (← (← readFrom {} words).settle).complete

end RpcClient.CommandLine
