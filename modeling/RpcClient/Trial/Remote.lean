import RpcClient.Link
import RpcClient.Trial.Script

/-!
The scripted remote of a trial with the connections to it.
-/
namespace RpcClient.Trial

structure RemoteSide where
  /-- Whether it reads from the connection. -/
  reading : Bool
  /-- Bytes read and not yet taken as requests. -/
  buffer : Bytes := []

structure Answer where
  link : Nat
  /-- When its next piece goes out. -/
  dueAt : Nat
  /-- Whether some of it may have gone out. -/
  started : Bool := false
  /-- Whether only a part of a piece has gone out. -/
  torn : Bool := false
  pieces : List Bytes
  /-- Whether the remote hangs up behind it. -/
  hangsUp : Bool

structure RemoteState where
  script : Script
  /-- What it knows of each connection, in the order in which they were accepted. -/
  sides : List RemoteSide := []
  /-- How many connections the client closed. -/
  hangups : Nat := 0
  /-- How many requests have come. -/
  served : Nat := 0
  received : List Received := []
  answers : List Answer := []

/-- A remote together with the links to it. -/
structure Remote extends RemoteState where
  links : List Link

namespace Remote

def accepted (r : Remote) : Nat :=
  r.links.length

def modifyLink (r : Remote) (l : Nat) (f : Link → Link) : Remote :=
  { r with links := r.links.modify l f }

/-- Accepts a connection, or drops it at once. -/
def accept (r : Remote) : Remote :=
  let dropped := r.accepted < r.script.dropFirst
  { r with
    links := r.links ++ [{ remoteOpen := !dropped }]
    sides := r.sides ++ [{ reading := !dropped && !r.script.deaf }] }

def hangUp (r : Remote) (l : Nat) : Remote :=
  { r with
    links := r.links.modify l Link.dropRemote
    sides := r.sides.modify l fun side => { side with reading := false }
    answers := r.answers.filter (·.link != l) }

def hangUpAll (r : Remote) : Remote :=
  (List.range r.links.length).foldl hangUp r

/-- Takes note of a request, and starts to answer it as the script says. -/
def serve (r : Remote) (now l : Nat) (request : Received) : Remote :=
  let action := (r.script.actions[r.served]?).getD {}
  let r := { r with served := r.served + 1, received := request :: r.received }
  if action.silent then r
  else
    let pieces := if action.close then [] else action.replyPieces r.script.dialect request
    let answer : Answer :=
      { link := l, dueAt := now + action.delay, pieces, hangsUp := action.close || action.thenClose }
    { r with answers := r.answers ++ [answer] }

/-- Takes requests off what was read from a connection, at most `fuel` of them. -/
def serveAll (now l : Nat) : (fuel : Nat) → Remote → Remote
  | 0, r => r
  | fuel + 1, r =>
    match r.sides[l]? with
    | none => r
    | some side =>
      match r.script.dialect.take side.buffer with
      | .incomplete => r
      | .malformed => r.hangUp l
      | .request request rest =>
        let r := { r with sides := r.sides.set l { side with buffer := rest } }
        serveAll now l fuel (r.serve now l request)

/-- Whether an answer was about to go on in the middle of a piece. -/
def isSending (r : Remote) (l : Nat) (link : Link) : Bool :=
  !link.isFull && r.answers.any fun a => a.link == l && a.torn

/-- What the reader of a connection can do now. Where an answer was about to go on, the end of the
connection shows there, and the reader does not count it. -/
def readerAct? (r : Remote) (now l : Nat) : Option Remote :=
  match r.links[l]?, r.sides[l]? with
  | some link, some side =>
    if !side.reading then none
    else
      match link.remoteRead with
      | (_, .nothing) => none
      | (_, .ended) =>
        let count := if r.isSending l link then 0 else 1
        some { r.hangUp l with hangups := r.hangups + count }
      | (link, .bytes bytes) =>
        let buffer := side.buffer ++ bytes
        let r := {
          r with
          links := r.links.set l link
          sides := r.sides.set l { side with buffer } }
        some (serveAll now l (buffer.length + 1) r)
  | _, _ => none

/-- Whether an answer can go on: its time has come, and no other answer has begun on its
connection. -/
def isDue (r : Remote) (now : Nat) (a : Answer) : Bool :=
  a.dueAt ≤ now && (a.started || !r.answers.any fun b => b.link == a.link && b.started)

/-- What an answer can do now: it sends what fits of its next piece, and ends behind the last one. -/
def answerAct? (r : Remote) (now k : Nat) : Option Remote :=
  match r.answers[k]? with
  | none => none
  | some a =>
    if !r.isDue now a then none
    else
      match r.links[a.link]?, a.pieces with
      | none, _ => none
      | some _, [] =>
        let r := { r with answers := r.answers.eraseIdx k }
        some (if a.hangsUp then r.hangUp a.link else r)
      | some link, piece :: pieces =>
        if !link.clientOpen then some { r with answers := r.answers.eraseIdx k }
        else
          let (link, count) := link.remoteWrite piece
          if count = 0 && !piece.isEmpty then none
          else
            let a :=
              if count = piece.length then
                { a with
                  started := true
                  torn := false
                  dueAt := if pieces.isEmpty then a.dueAt else now + 1
                  pieces }
              else { a with started := true, torn := true, pieces := piece.drop count :: pieces }
            some { r with links := r.links.set a.link link, answers := r.answers.set k a }

def act? (r : Remote) (now : Nat) : Option Remote :=
  (List.range r.links.length).findSome? (r.readerAct? now) <|>
    (List.range r.answers.length).findSome? (r.answerAct? now)

def timers (r : Remote) : List Nat :=
  r.answers.map Answer.dueAt

/-- The requests that came since the last look, in order. -/
def look (r : Remote) : Remote × List Received :=
  ({ r with received := [] }, r.received.reverse)

end Remote
end RpcClient.Trial
