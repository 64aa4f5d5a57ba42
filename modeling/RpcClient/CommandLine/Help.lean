/-!
What the program says about its use. A page of help has an opening line, a line that shows how the
arguments go together, and sections of aligned rows.
-/
namespace RpcClient.CommandLine

inductive Topic where
  | program
  | invoke
  | check
  | help
  deriving DecidableEq, Repr, Inhabited

namespace Topic

/-- What a topic is in a line. -/
def about : Topic → String
  | .program => "Send RPC calls through tether invokers"
  | .invoke => "Perform one call and print the response body"
  | .check => "Validate the configuration and build every invoker"
  | .help => "Print this message or the help of the given subcommand(s)"

def usage : Topic → String
  | .program => "tether [OPTIONS] <COMMAND>"
  | .invoke => "tether invoke [OPTIONS] --invoker <INVOKER> <DATA>"
  | .check => "tether check [OPTIONS]"
  | .help => "tether help [COMMAND]..."

def configRow : String × String :=
  ("-c, --config <CONFIG>", "Configuration file [default: tether.toml]")

def helpRow : String × String :=
  ("-h, --help", "Print help")

/-- The sections of a page: titles with rows of what can be given and what it means. -/
def sections : Topic → List (String × List (String × String))
  | .program =>
    [("Commands", [("invoke", invoke.about), ("check", check.about), ("help", help.about)]),
      ("Options", [configRow, helpRow, ("-V, --version", "Print version")])]
  | .invoke =>
    [("Arguments", [("<DATA>", "Request body")]),
      ("Options",
        [configRow,
          ("-i, --invoker <INVOKER>", "Invoker name in the configuration file"),
          ("    --id <ID>", "Request id [default: 1]"),
          ("-m, --method <METHOD>", "Method, or HTTP path for HTTP channels [default: \"\"]"),
          ("-H, --header <HEADERS>", "Request header as key=value, repeatable"),
          ("-t, --timeout <TIMEOUT>",
            "Timeout in milliseconds (0 uses the header override or the default) [default: 0]"),
          helpRow])]
  | .check => [("Options", [configRow, helpRow])]
  | .help => [("Arguments", [("[COMMAND]...", "Print help for the subcommand(s)")])]

/-- Rows of two columns, two blanks apart. -/
def alignRows (rows : List (String × String)) : List String :=
  let width := (rows.map fun (left, _) => left.length).foldl max 0
  rows.map fun (left, right) =>
    "  " ++ String.ofList (left.toList.rightpad (width + 2) ' ') ++ right

def lines (topic : Topic) : List String :=
  [topic.about, "", "Usage: " ++ topic.usage] ++
    topic.sections.flatMap fun (title, rows) => "" :: (title ++ ":") :: alignRows rows

def page (topic : Topic) : String :=
  String.join (topic.lines.map (· ++ "\n"))

end Topic
end RpcClient.CommandLine
