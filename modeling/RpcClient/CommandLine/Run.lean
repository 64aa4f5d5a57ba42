import RpcClient.CommandLine.Arguments
import RpcClient.Configuration
import RpcClient.Session.Basic

/-!
What the program does, apart from making a call over the network.
-/
namespace RpcClient.CommandLine

structure Report where
  exitCode : UInt8 := 0
  /-- What it prints. -/
  output : Bytes := []
  /-- What it says about an error. -/
  complaint : String := ""
  deriving DecidableEq, Repr, Inhabited

inductive Plan where
  | report (report : Report)
  /-- A call is to be made, and `Report.ofResult` tells what comes of it. -/
  | call (session : Session)

def version : String := "tether 0.1.0\n"

/-- The wording of a failure with that of its cause behind it, where the cause has one of its own. -/
def describe (failure : Failure) : String :=
  match failure with
  | .wire error => s!"{failure.message}: {error.message}"
  | .io flaw => s!"{failure.message}: {flaw.message}"
  | .json _ => s!"{failure.message}: {failure.message}"
  | _ => failure.message

namespace Report

/-- The report of an error that comes after some output. -/
def failed (output : Bytes) (reason : String) : Report where
  exitCode := 1
  output
  complaint := s!"Error: {reason}\n"

/-- The report on arguments that ask for nothing to be done, or for nothing that makes sense. -/
def ofStop : Stop → Report
  | .help topic => { output := Utf8.encode topic.page }
  | .version => { output := Utf8.encode version }
  | .usage => { exitCode := 2, complaint := Topic.program.page }

def ofResult : Except Failure Response → Report
  | .error failure => failed [] (describe failure)
  | .ok response =>
    match response.error with
    | some error => failed [] s!"remote error {error.status}: {error.message}"
    | none => { output := response.data ++ Utf8.encode "\n" }

end Report

/-- Builds an invoker with the channels and the callbacks of this library. -/
def buildInvoker (configuration : Configuration) (settings : InvokerSettings) :
    Except Failure (Invoker Replica) :=
  let channels : Channel.Registry Unit Replica := .standard fun channel => .linked channel []
  let context : Channel.Context := { routing := .ofSettings configuration.routing }
  ((Invoker.ofSettings channels .standard context settings).run ()).1

/-- Builds invokers in turn, up to the first that cannot be built. `output` is what was printed
before. -/
def checkFrom (configuration : Configuration) (output : String) :
    List (String × InvokerSettings) → Report
  | [] => { output := Utf8.encode output }
  | (name, settings) :: rest =>
    match buildInvoker configuration settings with
    | .error failure => .failed (Utf8.encode output) s!"invoker {name}: {describe failure}"
    | .ok invoker =>
      checkFrom configuration s!"{output}{name}: {invoker.replicas.length} replica(s)\n" rest

def CallArguments.request (call : CallArguments) : Request where
  id := call.id
  method := call.method
  header := call.headers.foldl (fun header (key, value) => header.append key value) .empty
  data := Utf8.encode call.data
  timeoutMs := UInt32.ofNat call.timeoutMs

/-- Builds the invoker of a call. Its channels connect to addresses only. -/
def planCall (configuration : Configuration) (call : CallArguments) : Plan :=
  match configuration.invoker call.invoker with
  | .error flaw => .report (.failed [] flaw.message)
  | .ok settings =>
    match buildInvoker configuration settings with
    | .error failure => .report (.failed [] (describe failure))
    | .ok invoker =>
      .call { invoker, addressesOnly := true, calls := [{ startAt := 0, request := call.request }] }

/-- What is to be done about arguments, given the file that they name if there is one. -/
def plan (env : Environment) (arguments : Arguments) (file : Option Bytes) : Plan :=
  match Configuration.load env arguments.config file with
  | .error flaw => .report (.failed [] s!"loading {arguments.config}: {flaw.message}")
  | .ok configuration =>
    match arguments.command with
    | .check => .report (checkFrom configuration "" configuration.invokers)
    | .invoke call => planCall configuration call

end RpcClient.CommandLine
