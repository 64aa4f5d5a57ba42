import RpcClient.Http.Client
import RpcClient.Http.Intake

/-!
The client side of a connection of HTTP/1. It carries one exchange at a time: a request, then the
response to it. Whatever the remote sends out of turn ends its use.
-/
namespace RpcClient.Http

namespace Connection

inductive Stage where
  | idle
  /-- A request with this method waits for the head of its response. The first `seen` bytes received
  were looked at and hold only a part of it. -/
  | awaiting (method : String) (seen : Nat)
  | receiving (method : String) (head : Head) (extent : Extent)
  | over (result : Except Outage Response)

end Connection

structure Connection where
  /-- Whether it carries no more requests. -/
  closed : Bool := false
  /-- The version of the last response. The remote is thought to know HTTP/1.1 until it says
  otherwise. -/
  version : Version := .oneOne
  output : Bytes := []
  input : Bytes := []
  intake : Intake := {}
  /-- Whether the exchange under way asks for the connection to be closed behind it. -/
  isLast : Bool := false
  stage : Connection.Stage := .idle

namespace Connection

instance : Inhabited Connection := ⟨{}⟩

def fresh : Connection := {}

/-- Closes a connection. An exchange under way fails. -/
def close (conn : Connection) : Connection :=
  let conn := { conn with closed := true, output := [] }
  match conn.stage with
  | .awaiting _ _ | .receiving _ _ _ =>
    { conn with stage := .over (.error .noHttpResponse) }
  | _ => conn

/-- The size from which on a head that is not whole is given up, in bytes. -/
def maxHead : Nat := Intake.most

def await (conn : Connection) (method : String) : Connection :=
  if maxHead ≤ conn.input.length then conn.close
  else { conn with stage := .awaiting method conn.input.length }

/-- Ends an exchange with a whole response. `rest` was received behind it. -/
def conclude (conn : Connection) (method : String) (head : Head) (extent : Extent)
    (body rest : Bytes) : Connection :=
  let isReusable :=
    head.keepsOpen method && !conn.isLast && extent != .toEnd && rest.isEmpty &&
      conn.output.isEmpty
  { conn with
    closed := !isReusable
    output := []
    input := rest
    stage := .over (.ok ⟨head.status, head.headers, body⟩) }

def readBody (conn : Connection) (method : String) (head : Head) (extent : Extent) : Connection :=
  match takeBody extent conn.input with
  | .more => { conn with stage := .receiving method head extent }
  | .malformed => { conn with stage := .receiving method head extent }.close
  | .done body rest => conn.conclude method head extent body rest

/-- Reads a head and what is there of the body behind it. Interim responses are passed over. -/
def readHead (conn : Connection) (method : String) : Connection :=
  let input := Head.dropInterim conn.input
  match Head.take input with
  | .more => { conn with input }.await method
  | .malformed => conn.close
  | .done head rest =>
    match Extent.of? method head with
    | none => conn.close
    | some extent => { conn with version := head.version, input := rest }.readBody method head extent

/-- Reads what has been received. Only a response that a request waits for is welcome. A head that
came in part is read again when an empty line has come. -/
def read (conn : Connection) : Connection :=
  match conn.stage with
  | .awaiting method seen =>
    if seen = 0 || Head.holdsEnd (conn.input.drop (seen - 3)) then conn.readHead method
    else conn.await method
  | .receiving method head extent => conn.readBody method head extent
  | .idle | .over _ => if conn.input.isEmpty then conn else conn.close

def send (conn : Connection) (request : Request) : Connection :=
  let conn := { conn with stage := .awaiting request.method 0, isLast := request.asksFor "close" }
  if conn.closed then conn.close else { conn with output := request.encode conn.version }

def written (conn : Connection) (count : Nat) : Connection :=
  { conn with output := conn.output.drop count }

/-- Reads bytes that were received, in at most `fuel` looks. -/
def receivedWithin : (fuel : Nat) → Connection → Bytes → Connection
  | 0, conn, _ => conn
  | fuel + 1, conn, bytes =>
    if conn.closed || bytes.isEmpty then conn
    else
      let seen := bytes.take conn.intake.size
      let intake := conn.intake.next seen.length
      let conn := { conn with input := conn.input ++ seen, intake }.read
      receivedWithin fuel conn (bytes.drop seen.length)

def received (conn : Connection) (bytes : Bytes) : Connection :=
  receivedWithin bytes.length conn bytes

def finished (conn : Connection) : Connection :=
  if conn.closed then conn
  else
    match conn.stage with
    | .receiving method head .toEnd => conn.conclude method head .toEnd conn.input []
    | _ => conn.close

def result? (conn : Connection) : Option (Except Outage Response) :=
  match conn.stage with
  | .over result => some result
  | _ => none

def reset (conn : Connection) : Connection :=
  { conn with stage := .idle }

inductive Input where
  | written (count : Nat)
  | received (bytes : Bytes)
  | finished
  | broken

def meet (conn : Connection) : Input → Connection
  | .written count => conn.written count
  | .received bytes => conn.received bytes
  | .finished => conn.finished
  | .broken => conn.close

def client : Client Connection Input where
  fresh := fresh
  isClosed := closed
  send request conn := conn.send request
  meet input conn := conn.meet input
  result? := result?
  reset := reset

end Connection
end RpcClient.Http
