import RpcClient.Http.Fields

/-!
Heads of HTTP/1 responses, read off the front of what has arrived so far. Bytes that no head starts
with are refused as soon as they are there.
-/
namespace RpcClient.Http

inductive Progress (α : Type) where
  | more
  | malformed
  | done (value : α) (rest : Bytes)
  deriving DecidableEq, Repr, Inhabited

namespace Progress

variable {α β : Type}

def bind (p : Progress α) (next : α → Bytes → Progress β) : Progress β :=
  match p with
  | .more => .more
  | .malformed => .malformed
  | .done value rest => next value rest

end Progress

/-- Steps over the end of a line: a line feed, with or without a carriage return in front. -/
def takeLineEnd : Bytes → Progress Unit
  | 0x0a :: rest | 0x0d :: 0x0a :: rest => .done () rest
  | [] | [0x0d] => .more
  | _ => .malformed

def takeEmptyLines : Bytes → Progress Unit
  | 0x0a :: rest | 0x0d :: 0x0a :: rest => takeEmptyLines rest
  | [] | [0x0d] => .more
  | 0x0d :: _ => .malformed
  | bytes => .done () bytes

def takeVersion (bytes : Bytes) : Progress Version :=
  let start := Utf8.encode "HTTP/1."
  match bytes.drop start.length with
  | [] => if bytes.isPrefixOf start then .more else .malformed
  | minor :: rest =>
    if !start.isPrefixOf bytes then .malformed
    else if minor == 0x31 then .done .oneOne rest
    else if minor == 0x30 then .done .oneZero rest
    else .malformed

def takeBlank : Bytes → Progress Unit
  | [] => .more
  | b :: rest => if b == 0x20 then .done () rest else .malformed

def takeDigits : (count high : Nat) → Bytes → Progress Nat
  | 0, high, bytes => .done high bytes
  | _ + 1, _, [] => .more
  | count + 1, high, b :: rest =>
    if 0x30 ≤ b && b ≤ 0x39 then takeDigits count (high * 10 + (b.toNat - 0x30)) rest
    else .malformed

/-- Steps over the reason behind a status, which may be missing, and the end of the line. -/
def takeReason : Bytes → Progress Unit
  | 0x20 :: rest => takeLineEnd (rest.dropWhile isValueByte)
  | bytes => takeLineEnd bytes

def takeHeader (bytes : Bytes) : Progress (String × Bytes) :=
  let name := bytes.takeWhile isTokenByte
  match bytes.drop name.length with
  | [] => .more
  | b :: rest =>
    if name.isEmpty || b != 0x3a then .malformed
    else
      let value := rest.takeWhile isValueByte
      (takeLineEnd (rest.drop value.length)).bind fun _ rest =>
        .done (lowerCase (Utf8.decodeLenient name), trimLine value) rest

def takeHeader? : Bytes → Progress (Option (String × Bytes))
  | [] => .more
  | b :: rest =>
    if isTokenByte b then (takeHeader (b :: rest)).bind fun header rest => .done (some header) rest
    else (takeLineEnd (b :: rest)).bind fun _ rest => .done none rest

/-- Reads header lines up to an empty line, behind those in `headers`, which holds the newest first.
A line for which there is no more room is refused once it is whole. -/
def takeHeaders : (room : Nat) → (headers : List (String × Bytes)) → Bytes →
    Progress (List (String × Bytes))
  | room, headers, bytes =>
    (takeHeader? bytes).bind fun header rest =>
      match header, room with
      | none, _ => .done headers.reverse rest
      | some _, 0 => .malformed
      | some header, room + 1 => takeHeaders room (header :: headers) rest

structure Head where
  version : Version
  status : Nat
  /-- Names in small letters with their values, in the order of the wire. -/
  headers : List (String × Bytes)
  deriving DecidableEq, Repr, Inhabited

namespace Head

def maxHeaders : Nat := 100

/-- Whether a head is refused although it is whole: by a status below 100, or a header name that is
too long. -/
def isRefused (head : Head) : Bool :=
  head.status < 100 || head.headers.any fun (name, _) => maxHeaderName < name.utf8ByteSize

def take (bytes : Bytes) : Progress Head :=
  (takeEmptyLines bytes).bind fun _ rest =>
    (takeVersion rest).bind fun version rest =>
      (takeBlank rest).bind fun _ rest =>
        (takeDigits 3 0 rest).bind fun status rest =>
          (takeReason rest).bind fun _ rest =>
            (takeHeaders maxHeaders [] rest).bind fun headers rest =>
              let head : Head := { version, status, headers }
              if head.isRefused then .malformed else .done head rest

/-- Whether another head follows: the one of the response proper. -/
def isInterim (head : Head) : Bool :=
  head.status / 100 == 1 && head.status != 101

/-- What follows the interim heads at the front, of which there are at most `fuel`. -/
def dropInterimWithin : (fuel : Nat) → Bytes → Bytes
  | 0, bytes => bytes
  | fuel + 1, bytes =>
    match take bytes with
    | .done head rest => if head.isInterim then dropInterimWithin fuel rest else bytes
    | _ => bytes

def dropInterim (bytes : Bytes) : Bytes :=
  dropInterimWithin bytes.length bytes

/-- Whether the end of some line is followed by an empty line. -/
def holdsEnd : Bytes → Bool
  | 0x0a :: 0x0a :: _ | 0x0a :: 0x0d :: 0x0a :: _ => true
  | _ :: rest => holdsEnd rest
  | [] => false

def valuesOf (head : Head) (name : String) : List Bytes :=
  (head.headers.filter (·.1 == name)).map (·.2)

/-- Whether the connection speaks no more HTTP behind the head of a response to a request with this
method. -/
def switchesProtocol (head : Head) (method : String) : Bool :=
  head.status == 101 || (method == "CONNECT" && head.status / 100 == 2)

def keepsOpen (head : Head) (method : String) : Bool :=
  head.version.staysOpen (head.valuesOf "connection") && !head.switchesProtocol method

end Head
end RpcClient.Http
