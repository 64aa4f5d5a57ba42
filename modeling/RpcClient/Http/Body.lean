import RpcClient.Http.Head

/-!
Bodies of HTTP/1 responses: how far they go, and how chunks are put together.
-/
namespace RpcClient.Http

inductive Extent where
  | length (length : Nat)
  | chunked
  /-- To the end of the connection. -/
  | toEnd
  deriving DecidableEq, Repr, Inhabited

namespace Extent

/-- The longest body that a header may announce, in bytes. -/
def maxLength : Nat := UInt64.size - 3

/-- How far the body goes behind the head of a response to a request with this method. -/
def of? (method : String) (head : Head) : Option Extent :=
  if head.status == 204 || head.status == 304 || method == "HEAD" || head.switchesProtocol method then
    some (.length 0)
  else
    let codings := head.valuesOf "transfer-encoding"
    let lengths := head.valuesOf "content-length"
    if !codings.isEmpty then
      if head.version == .oneZero then none
      else if endsInOption "chunked" codings then some .chunked
      else some .toEnd
    else if lengths.isEmpty then some .toEnd
    else ((sharedLength? lengths).filter (· ≤ maxLength)).map .length

end Extent

namespace Chunks

inductive Stage where
  | start
  | size (size : Nat)
  | blank (size : Nat)
  | extension (size : Nat)
  | sizeEnd (size : Nat)
  | data (left : Nat)
  | dataReturn
  | dataEnd
  | line
  | trailer
  | trailerEnd
  | lineEnd
  | over
  deriving DecidableEq, Repr, Inhabited

end Chunks

structure Chunks where
  stage : Chunks.Stage := .start
  /-- The data, the newest byte first. -/
  data : Bytes := []
  /-- How many bytes stood behind semicolons. -/
  extensionSize : Nat := 0
  /-- The trailer lines with the empty line behind them, the newest byte first. -/
  trailers : Bytes := []
  trailerSize : Nat := 0
  trailerCount : Nat := 0
  deriving DecidableEq, Repr, Inhabited

namespace Chunks

/-- The most bytes behind semicolons, and the most of trailer lines. -/
def maxExtra : Nat := 16384

def hexDigit? (b : UInt8) : Option Nat :=
  if 0x30 ≤ b && b ≤ 0x39 then some (b.toNat - 0x30)
  else if 0x41 ≤ b && b ≤ 0x46 then some (b.toNat - 0x37)
  else if 0x61 ≤ b && b ≤ 0x66 then some (b.toNat - 0x57)
  else none

/-- Takes another digit of the size of a chunk, which has 64 bits. -/
def addDigit (c : Chunks) (high digit : Nat) : Option Chunks :=
  let size := high * 16 + digit
  if size < UInt64.size then some { c with stage := .size size } else none

def endSize (c : Chunks) (size : Nat) (b : UInt8) : Option Chunks :=
  if isLineBlank b then some { c with stage := .blank size }
  else if b == 0x3b then some { c with stage := .extension size }
  else if b == 0x0d then some { c with stage := .sizeEnd size }
  else none

def addTrailer (c : Chunks) (b : UInt8) (stage : Stage) : Option Chunks :=
  if c.trailerSize + 1 < maxExtra then
    some { c with stage, trailers := b :: c.trailers, trailerSize := c.trailerSize + 1 }
  else none

/-- Ends the sequence. Trailers have to be header lines. -/
def finish (c : Chunks) : Option Chunks :=
  if c.trailers.isEmpty then some { c with stage := .over }
  else
    match takeHeaders c.trailerCount [] c.trailers.reverse with
    | .done _ _ => some { c with stage := .over }
    | _ => none

def step (c : Chunks) (b : UInt8) : Option Chunks :=
  match c.stage with
  | .start => (hexDigit? b).bind (c.addDigit 0)
  | .size size =>
    match hexDigit? b with
    | some digit => c.addDigit size digit
    | none => c.endSize size b
  | .blank size => c.endSize size b
  | .extension size =>
    if b == 0x0d then some { c with stage := .sizeEnd size }
    else if b == 0x0a || maxExtra ≤ c.extensionSize + 1 then none
    else some { c with extensionSize := c.extensionSize + 1 }
  | .sizeEnd size =>
    if b == 0x0a then some { c with stage := if size = 0 then .line else .data size } else none
  | .data left =>
    some { c with stage := if left ≤ 1 then .dataReturn else .data (left - 1), data := b :: c.data }
  | .dataReturn => if b == 0x0d then some { c with stage := .dataEnd } else none
  | .dataEnd => if b == 0x0a then some { c with stage := .start } else none
  | .line =>
    if b != 0x0d then c.addTrailer b .trailer
    else if c.trailers.isEmpty then some { c with stage := .lineEnd }
    else c.addTrailer b .lineEnd
  | .trailer => c.addTrailer b (if b == 0x0d then .trailerEnd else .trailer)
  | .trailerEnd =>
    if b == 0x0a && c.trailerCount < Head.maxHeaders then
      { c with trailerCount := c.trailerCount + 1 }.addTrailer b .line
    else none
  | .lineEnd =>
    if b != 0x0a then none
    else if c.trailers.isEmpty then c.finish
    else (c.addTrailer b .lineEnd).bind finish
  | .over => none

def read (c : Chunks) : Bytes → Progress Bytes
  | [] => .more
  | b :: rest =>
    match c.step b with
    | none => .malformed
    | some c => if c.stage = .over then .done c.data.reverse rest else c.read rest

end Chunks

/-- Reads a body of the given extent. One that goes to the end of the connection is never whole
before. -/
def takeBody (extent : Extent) (bytes : Bytes) : Progress Bytes :=
  match extent with
  | .length length =>
    match Bytes.dropExactly length bytes with
    | none => .more
    | some rest => .done (bytes.take length) rest
  | .chunked => ({} : Chunks).read bytes
  | .toEnd => .more

end RpcClient.Http
