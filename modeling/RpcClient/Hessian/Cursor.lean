import RpcClient.Hessian.Tag
import RpcClient.Text.Number
import RpcClient.Text.Utf8

/-!
A place in Hessian data, and actions that move it. An action that fails leaves the cursor where it
failed: the bytes taken so far stay taken.
-/
namespace RpcClient.Hessian

inductive Flaw where
  | endOfData
  /-- A byte that starts no character stands where one must start. -/
  | badLead
  /-- The characters of one string part are not text. -/
  | badText (flaw : Utf8.Flaw)
  | notString (tag : UInt8)
  | notInt (tag : UInt8)
  | notMap (tag : UInt8)
  | negativeLength (length : Int)
  | tooDeep
  /-- A part of a binary is followed by something else than a part. -/
  | badBinaryChunk (tag : UInt8)
  | undefinedClass (number : Nat)
  | unknownTag (tag : UInt8)
  | other (reason : String)
  deriving DecidableEq, Repr, Inhabited

def Flaw.message : Flaw → String
  | .endOfData => "unexpected end of data"
  | .badLead => "invalid utf-8 lead byte"
  | .badText flaw => flaw.message
  | .notString tag => "expected string, found tag " ++ Number.hexByte tag
  | .notInt tag => "expected int, found tag " ++ Number.hexByte tag
  | .notMap tag => "expected map, found tag " ++ Number.hexByte tag
  | .negativeLength length => s!"negative length {length}"
  | .tooDeep => "value nested too deeply"
  | .badBinaryChunk tag => "bad binary chunk " ++ Number.hexByte tag
  | .undefinedClass number => s!"undefined class reference {number}"
  | .unknownTag tag => "unknown tag " ++ Number.hexByte tag
  | .other reason => reason

/-- A place in `size` bytes of data, with the field counts of the classes defined before it. -/
structure Cursor where
  rest : Bytes
  position : Nat
  size : Nat
  classes : Array Nat
  position_add_length_rest : position + rest.length = size

namespace Cursor

def ofBytes (data : Bytes) : Cursor where
  rest := data
  position := 0
  size := data.length
  classes := #[]
  position_add_length_rest := by simp

def isEmpty (c : Cursor) : Bool :=
  c.rest.isEmpty

def remaining (c : Cursor) : Nat :=
  c.size - c.position

theorem length_rest (c : Cursor) : c.rest.length = c.remaining := by
  have := c.position_add_length_rest
  simp only [remaining]
  omega

end Cursor

abbrev Read (α : Type) := EStateM Flaw Cursor α

/-- The next byte, left in place. -/
def peek : Read UInt8 := fun c =>
  match c.rest with
  | [] => .error .endOfData c
  | b :: _ => .ok b c

def byte : Read UInt8 := fun c =>
  match h : c.rest with
  | [] => .error .endOfData c
  | b :: rest =>
    .ok b { c with
      rest
      position := c.position + 1
      position_add_length_rest := by
        have := c.position_add_length_rest
        simp only [h, List.length_cons] at this
        omega }

/-- Steps over `count` bytes, or over none if there are fewer. -/
def skip (count : Nat) : Read Unit := fun c =>
  match h : Bytes.dropExactly count c.rest with
  | none => .error .endOfData c
  | some rest =>
    .ok () { c with
      rest
      position := c.position + count
      position_add_length_rest := by
        have := c.position_add_length_rest
        have := Bytes.length_of_dropExactly h
        omega }

def word : Read Nat := do
  let high ← byte
  let low ← byte
  return high.toNat * 256 + low.toNat

def times : (count : Nat) → (action : Read Unit) → Read Unit
  | 0, _ => pure ()
  | count + 1, action => do
    action
    times count action

/-- Runs `action` up to the end mark, at most `fuel` times. -/
def untilEndWithin : (fuel : Nat) → (action : Read Unit) → Read Unit
  | 0, _ => throw .endOfData
  | fuel + 1, action => do
    if Tag.ofByte (← peek) == .endMark then
      discard byte
    else
      action
      untilEndWithin fuel action

/-- Runs `action` up to the end mark and steps over the mark. Every run takes a byte, so there are
no more runs than bytes. -/
def untilEnd (action : Read Unit) : Read Unit := do
  untilEndWithin (← get).remaining action

/-- Records a class with `fields` fields under the next free number. -/
def defineClass (fields : Nat) : Read Unit :=
  modify fun c => { c with classes := c.classes.push fields }

end RpcClient.Hessian
