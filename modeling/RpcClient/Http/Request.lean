import RpcClient.Failure
import RpcClient.Http.Fields
import RpcClient.Message

/-!
Requests of HTTP/1, built from requests of any protocol and written as bytes.
-/
namespace RpcClient.Http

def verbKey : String := "verb"

def queryKey : String := "query_string"

structure Request where
  method : String
  target : String
  /-- Names in small letters with their values, each name once. -/
  headers : List (String × String)
  body : Bytes
  deriving DecidableEq, Repr, Inhabited

namespace Request

def methodOf (request : RpcClient.Request) : Except SettingsFlaw String :=
  let verb := request.header.get verbKey
  if verb = "" then .ok "GET" else if isToken verb then .ok verb else .error (.method verb)

def targetText (request : RpcClient.Request) : String :=
  let path := if request.method.startsWith "/" then request.method else "/" ++ request.method
  let query := request.header.get queryKey
  if query = "" then path else path ++ "?" ++ query

/-- Copies the entries of a header. Keys that differ in nothing but the size of letters are one name,
and the last of them counts. -/
def copyHeaders : (headers : List (String × String)) → List (String × String) →
    Except SettingsFlaw (List (String × String))
  | headers, [] => .ok headers
  | headers, (key, value) :: rest =>
    if !isHeaderName key then .error (.headerName key)
    else if !isHeaderValue value then .error (.headerValue key)
    else copyHeaders (Entries.put (lowerCase key) value headers) rest

def addContentType (contentType : String) (headers : List (String × String)) :
    Except SettingsFlaw (List (String × String)) :=
  if contentType = "" || Entries.contains "content-type" headers then .ok headers
  else if isHeaderValue contentType then .ok (Entries.put "content-type" contentType headers)
  else .error .contentType

/-- Builds a request. The method and the query come from headers, which go no further; all other
headers are copied. -/
def build (request : RpcClient.Request) : Except SettingsFlaw Request := do
  let method ← methodOf request
  let text := targetText request
  let target ← (Http.target text).mapError (.target text)
  let headers ← copyHeaders [] ((request.header.erase verbKey).erase queryKey).toList
  let headers ← addContentType request.contentType headers
  if !isHeaderValue request.id then
    throw (.requestId request.id)
  let headers := Entries.put "id" request.id (Entries.put "host" "localhost" headers)
  return { method, target, headers, body := request.data }

/-- How the body of a request is sent. -/
inductive Framing where
  /-- Its first `length` bytes, where a header gives that number. -/
  | given (length : Nat)
  /-- As a whole, with its length in a header. -/
  | measured
  | chunked
  deriving DecidableEq, Repr, Inhabited

def givenLength? (request : Request) : Option Nat :=
  sharedLength? ((Entries.get? "content-length" request.headers).toList.map Utf8.encode)

/-- How the body of a request is sent to a remote that knows a version. Headers decide where they say
it. There are no chunks in HTTP/1.0. -/
def framing (request : Request) (version : Version) : Framing :=
  if request.body.isEmpty then .given 0
  else if version == .oneOne && Entries.contains "transfer-encoding" request.headers then .chunked
  else request.givenLength?.elim .measured .given

def asksFor (request : Request) (option : String) : Bool :=
  (Entries.get? "connection" request.headers).any fun value =>
    namesOption option (Utf8.encode value)

/-- The header line that asks a remote that knows no more than HTTP/1.0 to leave the connection open,
unless the request has its own say on that. -/
def openLine (request : Request) (version : Version) : List (String × String) :=
  if version == .oneOne || request.asksFor "close" || request.asksFor "keep-alive" then []
  else [("connection", "keep-alive")]

def sentHeaders (request : Request) (version : Version) : List (String × String) :=
  let headers := request.headers ++ request.openLine version
  match request.framing version with
  | .given _ =>
    if request.body.isEmpty || version == .oneZero then Entries.remove "transfer-encoding" headers
    else headers
  | .measured =>
    Entries.put "content-length" (toString request.body.length)
      (if version == .oneZero then Entries.remove "transfer-encoding" headers else headers)
  | .chunked =>
    let coding := (Entries.get? "transfer-encoding" headers).getD ""
    let coding :=
      if endsInOption "chunked" [Utf8.encode coding] then coding else coding ++ ", chunked"
    let headers := Entries.put "transfer-encoding" coding headers
    if request.givenLength?.isSome then Entries.remove "content-length" headers else headers

def sentBody (request : Request) (version : Version) : Bytes :=
  match request.framing version with
  | .given length => request.body.take length
  | .measured => request.body
  | .chunked =>
    let size := String.ofList ((Nat.toDigits 16 request.body.length).map Char.toUpper)
    Utf8.encode (size ++ "\r\n") ++ request.body ++ Utf8.encode "\r\n0\r\n\r\n"

def encode (request : Request) (version : Version) : Bytes :=
  let lines := (request.sentHeaders version).map fun (name, value) => name ++ ": " ++ value ++ "\r\n"
  Utf8.encode (request.method ++ " " ++ request.target ++ " " ++ version.name ++ "\r\n"
    ++ String.join lines ++ "\r\n") ++ request.sentBody version

end Request
end RpcClient.Http
