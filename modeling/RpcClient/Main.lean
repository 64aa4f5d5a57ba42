import RpcClient.CommandLine.Run
import RpcClient.Network
import Std.Internal.UV.System

/-!
The program `tether`: it sends calls through invokers that a configuration describes.
-/
open RpcClient

def readFile? (path : String) : IO (Option Bytes) := do
  try
    return some (← IO.FS.readBinFile path).toList
  catch _ => return none

def printReport (report : CommandLine.Report) : IO UInt32 := do
  let output ← IO.getStdout
  output.write (ByteArray.mk report.output.toArray)
  output.flush
  IO.eprint report.complaint
  return report.exitCode.toUInt32

def main (words : List String) : IO UInt32 := do
  match CommandLine.Arguments.parse words with
  | .error stop => printReport (.ofStop stop)
  | .ok arguments =>
    let env := (← Std.Internal.UV.System.osEnviron).toList
    match CommandLine.plan env arguments (← readFile? arguments.config) with
    | .report report => printReport report
    | .call session =>
      let session ← Network.run session
      match session.calls with
      | call :: _ => printReport (.ofResult call.result)
      | [] => return 0
