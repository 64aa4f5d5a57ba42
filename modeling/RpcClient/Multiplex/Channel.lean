import RpcClient.Codec
import RpcClient.Failure

/-!
The state of a channel that shares one connection among all of its calls.

Every call gets a number, under which a waiter is registered before its frame is written. A reader
takes frames off the connection and hands each response to the waiter under its number. A call that
names an address of its own leaves the shared connection alone.
-/
namespace RpcClient.Multiplex

inductive CloseReason where
  /-- The remote closed it, or reading from it failed. -/
  | remote
  /-- The remote sent what is no frame. -/
  | malformed
  /-- A frame could not be written as a whole. -/
  | broken
  deriving DecidableEq, Repr, Inhabited

/-- What the reader of a connection does next. -/
inductive Reader where
  | reading
  | decoding
  | stopping (reason : CloseReason)
  | stopped
  deriving DecidableEq, Repr, Inhabited

structure Connection where
  writable : Bool := true
  holder : Option Nat := none
  /-- The calls that wait for the writer, in order. -/
  queue : List Nat := []
  closed : Bool := false
  /-- The first reason for closing. -/
  reason : Option CloseReason := none
  reader : Reader := .reading
  buffer : Bytes := []
  deriving DecidableEq, Repr, Inhabited

def Connection.fresh : Connection := {}

/-- What a call was given by the reader. -/
inductive Mailbox where
  | empty
  | full (frame : Frame)
  /-- The waiter lost its place to another call with the same number. -/
  | abandoned
  deriving DecidableEq, Repr, Inhabited

inductive DirectStage where
  | dialing
  /-- With the bytes left to write. -/
  | writing (rest : Bytes)
  /-- With the bytes read and not yet decoded. -/
  | reading (buffer : Bytes)
  deriving DecidableEq, Repr, Inhabited

inductive Phase where
  | seeking
  /-- It connects, and keeps other calls from doing so. -/
  | dialing
  /-- It has a connection and is about to ask for its writer. -/
  | entering (conn : Nat)
  /-- It waits for the writer, or holds it without having looked at it. -/
  | queued (conn : Nat)
  /-- It holds the writer and has `rest` left to write. -/
  | writing (conn : Nat) (rest : Bytes)
  /-- Its deadline passed while it was writing; it is about to close the connection. -/
  | expired (conn : Nat)
  /-- Its frame was not written; it is about to close the connection. -/
  | failed (conn : Nat) (failure : Failure)
  /-- Its frame was not written; it is about to take the connection out of use. -/
  | clearing (conn : Nat) (failure : Failure)
  | waiting (conn : Nat)
  /-- It uses a connection of its own to `address`. -/
  | direct (address : String) (stage : DirectStage)
  | done (result : Except Failure Response)
  | dropped

namespace Phase

def isEnded : Phase → Bool
  | .done _ | .dropped => true
  | _ => false

end Phase

structure Call where
  requestId : UInt64
  wire : Bytes := []
  /-- How many more times the call may try to write its frame. -/
  attempts : Nat := 4
  mailbox : Mailbox := .empty
  phase : Phase

/-- A channel. Calls and connections are numbered in the order in which they were started. -/
structure Channel where
  codec : Codec
  lastId : UInt32 := 0
  calls : List Call := []
  conns : List Connection := []
  current : Option Nat := none
  dialer : Option Nat := none
  /-- The waiters: request numbers with their calls. -/
  pending : List (UInt64 × Nat) := []

namespace Channel

def new (codec : Codec) : Channel := { codec }

/-- The number after `last`. Zero is never given. -/
def nextId (last : UInt32) : UInt32 :=
  if last + 1 = 0 then 1 else last + 1

def modifyCall (ch : Channel) (n : Nat) (f : Call → Call) : Channel :=
  { ch with calls := ch.calls.modify n f }

def modifyConn (ch : Channel) (c : Nat) (f : Connection → Connection) : Channel :=
  { ch with conns := ch.conns.modify c f }

def setPhase (ch : Channel) (n : Nat) (phase : Phase) : Channel :=
  ch.modifyCall n fun call => { call with phase }

def phase? (ch : Channel) (n : Nat) : Option Phase :=
  ch.calls[n]?.map Call.phase

def isClosed (ch : Channel) (c : Nat) : Bool :=
  (ch.conns[c]?.map Connection.closed).getD true

/-- The shared connection, unless it is closed. -/
def open? (ch : Channel) : Option Nat :=
  ch.current.filter fun c => !ch.isClosed c

def waiter? (ch : Channel) (id : UInt64) : Option Nat :=
  ch.pending.lookup id

def unregister (ch : Channel) (id : UInt64) : Channel :=
  { ch with pending := ch.pending.filter (·.1 != id) }

/-- Registers a call as the waiter under a number. An older waiter loses its place. -/
def register (ch : Channel) (id : UInt64) (n : Nat) : Channel :=
  let ch :=
    match ch.waiter? id with
    | none => ch
    | some old => ch.modifyCall old fun call => { call with mailbox := .abandoned }
  { ch with pending := (id, n) :: (ch.unregister id).pending }

/-- Hands a response to the call that waits under its number. Without one, nothing becomes of it. -/
def deliver (ch : Channel) (frame : Frame) : Channel :=
  match ch.waiter? frame.requestId with
  | none => ch
  | some n =>
    (ch.unregister frame.requestId).modifyCall n fun call => { call with mailbox := .full frame }

def finish (ch : Channel) (n : Nat) (phase : Phase) : Channel :=
  match ch.calls[n]? with
  | none => ch
  | some call =>
    match call.phase with
    | .direct _ _ => ch.setPhase n phase
    | _ => (ch.unregister call.requestId).setPhase n phase

def fail (ch : Channel) (n : Nat) (failure : Failure) : Channel :=
  ch.finish n (.done (.error failure))

def answer (ch : Channel) (n : Nat) (frame : Frame) : Channel :=
  ch.finish n (.done ((ch.codec.ofFrame frame).mapError .wire))

/-- Why a call fails whose connection was closed. -/
def closeFailure (ch : Channel) (c : Nat) : Failure :=
  match ch.conns[c]?.bind Connection.reason with
  | some .malformed => .timeout
  | _ => .connectionClosed

/-- Gives the writer of a connection to the next call that waits for it. -/
def release (ch : Channel) (c : Nat) : Channel :=
  ch.modifyConn c fun conn => { conn with holder := conn.queue.head?, queue := conn.queue.tail }

def leaveQueue (ch : Channel) (c n : Nat) : Channel :=
  ch.modifyConn c fun conn => { conn with queue := conn.queue.filter (· != n) }

/-- Drops the writing side of a connection that is closed. -/
def dropIfClosed (ch : Channel) (c : Nat) : Channel :=
  ch.modifyConn c fun conn => { conn with writable := conn.writable && !conn.closed }

/-- Closes a connection. The writing side is dropped unless a call holds the writer; that call drops
it. -/
def close (ch : Channel) (c : Nat) (reason : CloseReason) : Channel :=
  ch.modifyConn c fun conn =>
    { conn with
      closed := true
      reason := conn.reason <|> some reason
      writable := conn.writable && conn.holder.isSome }

/-- Lets the call that holds the writer of a connection start writing, if there is a writing side. -/
def startWriting (ch : Channel) (n c : Nat) : Channel :=
  match ch.calls[n]?, ch.conns[c]? with
  | some call, some conn =>
    if conn.writable then ch.setPhase n (.writing c call.wire)
    else (ch.release c).setPhase n (.failed c .connectionClosed)
  | _, _ => ch

/-- Lets a call whose frame was not written try again, up to the number of attempts. -/
def retry (ch : Channel) (n : Nat) (failure : Failure) : Channel :=
  match ch.calls[n]? with
  | none => ch
  | some call =>
    if call.attempts ≤ 1 then ch.fail n failure
    else ch.modifyCall n fun call => { call with attempts := call.attempts - 1, phase := .seeking }

/-- The response of a call that waits on a connection, if there is one, or why there is none. -/
def outcome? (ch : Channel) (call : Call) (c : Nat) : Option (Except Failure Frame) :=
  match call.mailbox with
  | .full frame => some (.ok frame)
  | .abandoned => some (.error (ch.closeFailure c))
  | .empty => none

/-- Ends a call that waits by what it was given. Without that, `otherwise` tells what to do. -/
def settle (ch : Channel) (n c : Nat) (otherwise : Channel) : Channel :=
  match ch.calls[n]? with
  | none => ch
  | some call =>
    match ch.outcome? call c with
    | some (.ok frame) => ch.answer n frame
    | some (.error failure) => ch.fail n failure
    | none => otherwise

end Channel
end RpcClient.Multiplex
