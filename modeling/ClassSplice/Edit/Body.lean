import ClassSplice.Code.Buffer
import ClassSplice.Code.Codec
import ClassSplice.Code.Cursor
import ClassSplice.Edit.Fault

namespace ClassSplice.Edit

open Code (Buffer Cursor Listing Opcode)
open Descriptor (FieldType)

def checked {α : Type} : Except Error α → Except Fault α :=
  Except.mapError .badClass

def constructorName : String := "<init>"

def methodNameAt (pool : Pool) (index : Pool.Index) : Except Error String := do
  match ← pool.get index with
  | .methodRef _ member _ =>
    match ← pool.get member with
    | .nameAndType name _ => pool.textAt name
    | _ => .error (.unexpectedConstant member "name and type")
  | _ => .error (.unexpectedConstant index "method reference")

/-- Offset behind the constructor call for the object under construction, where `pending` new
objects wait for calls of their own. -/
def behindSuperCall (code : Code) (pool : Pool) (pending : Nat) : List Nat → Except Fault Nat
  | [] => .error .missingSuperCall
  | pos :: starts => do
    let opcode ← checked (Code.byteAt code.bytes pos)
    if opcode = Opcode.new then behindSuperCall code pool (pending + 1) starts
    else if opcode = Opcode.invokespecial then
      let index ← checked (Code.u16At code.bytes (pos + 1))
      let name ← checked (methodNameAt pool index)
      if name ≠ constructorName then behindSuperCall code pool pending starts
      else if pending = 0 then return pos + 3
      else behindSuperCall code pool (pending - 1) starts
    else behindSuperCall code pool pending starts

/-- First offset that handlers around a body may cover: in a constructor, only what follows the
constructor call for its own object. -/
def bodyStart (code : Code) (pool : Pool) (isConstructor : Bool) : Except Fault Nat := do
  if !isConstructor then return 0
  else
    let starts ← checked (Code.instructionStarts code.bytes)
    behindSuperCall code pool 0 starts.toList

def subroutineAt (cursor : Cursor) (length : Nat) : Nat :=
  cursor.code.bytes.size - length

def shortReach : Nat := 32767

def callBytes (isWide : Bool) (distance : Int) : List UInt8 :=
  if isWide then Opcode.jsrW :: Binary.Writer.i32 (Int32.ofInt distance)
  else Opcode.jsr :: Binary.Writer.i16 (Int16.ofInt distance)

/-- Open a gap for a call in front of the return at `pos`. The call is wide if the subroutine is too
far away, also where that is only so because other branches were widened. -/
def openCall (cursor : Cursor) (pos length : Nat) : Except Error (Nat × Bool × Cursor) := do
  if shortReach - 5 < subroutineAt cursor length - pos then
    let (call, cursor) ← cursor.insertGap ⟨pos, 5, false⟩
    return (call, true, cursor)
  else
    let (call, cursor) ← cursor.insertGap ⟨pos, 3, false⟩
    if shortReach < subroutineAt cursor length - call then
      let (call, cursor) ← cursor.insertGap ⟨call, 2, false⟩
      return (call, true, cursor)
    else
      return (call, false, cursor)

def callBefore (cursor : Cursor) (pos length : Nat) : Except Error Cursor := do
  let (call, isWide, cursor) ← openCall cursor pos length
  cursor.overwrite call (callBytes isWide (subroutineAt cursor length - call))

/-- One step of the scan for returns: the cursor behind the next instruction and the number of calls
inserted in front of it. There is none where the subroutine is reached. -/
def callStep (cursor : Cursor) (length : Nat) : Except Error (Option (Cursor × Nat)) := do
  match ← cursor.next with
  | none => return none
  | some (pos, next) =>
    if subroutineAt next length ≤ pos then return none
    else if Opcode.isReturn (← Code.byteAt next.code.bytes pos) then
      return some (← callBefore next pos length, 1)
    else
      return some (next, 0)

/-- Room between the cursor and the greatest length of its code. Code that is too long for any
insertion does not grow. -/
def roomAhead (cursor : Cursor) : Nat :=
  max Code.maxLength cursor.code.bytes.size - cursor.pos

/-- Scan on for returns, with `calls` calls inserted before. A step leaves less room ahead. -/
def callFrom (length calls : Nat) (cursor : Cursor) : Except Error (Nat × Code) :=
  match callStep cursor length with
  | .error error => .error error
  | .ok none => .ok (calls, cursor.code)
  | .ok (some (next, inserted)) =>
    if roomAhead next < roomAhead cursor then callFrom length (calls + inserted) next
    else .ok (calls + inserted, next.code)
termination_by roomAhead cursor

/-- Put a call of the subroutine in the last `length` bytes in front of every return before it, and
return how many calls were inserted. -/
def callBeforeReturns (code : Code) (length : Nat) : Except Error (Nat × Code) :=
  callFrom length 0 (Cursor.start code)

/-- A handler that keeps the exception, calls the subroutine behind the handler with a result of
zero, and throws the exception again. -/
def addFinallyHandler (buffer : Buffer) (returns : Option FieldType) : Except Error Buffer := do
  let (slot, buffer) ← buffer.allocateLocal 1
  let buffer ← (buffer.setDepth 1).addStore slot .reference
  let buffer := match returns with
    | some type => buffer.addZero type.kind
    | none => buffer
  let call := buffer.pc
  let buffer := ((buffer.addOpcode Opcode.jsr).addU16 0).grow (-1)
  let buffer ← buffer.addLoad slot .reference
  let buffer := buffer.addOpcode Opcode.athrow
  return buffer.overwrite (call + 1) (Binary.Writer.u16 (UInt16.ofNat (buffer.pc - call)))

def fallsThrough (code : Array UInt8) : Except Error Bool := do
  match ← Code.lastOpcode? code with
  | none => return true
  | some opcode => return !opcode.endsFlow

/-- Refuse a body that is empty, whose handlers do not lie on instruction boundaries, or that needs
verification frames where they are not optional. -/
def checkBody (code : Code) (version : Version) : Except Fault Unit := do
  let listing ← checked (Listing.decode code.bytes)
  if listing.size = 0 then .error (.badClass (.malformedAttribute Code.attributeName))
  else
    checked (code.handlers.validate code.bytes.size fun pc => (listing.at? pc).isSome)
    let branches := listing.entries.any fun (_, located) => located.instruction.isBranch
    if !version.framesOptional && (branches || !code.handlers.isEmpty) then
      .error (.framesRequired version)

def raiseLimits (code : Code) (buffer : Buffer) : Except Error Code := do
  let (stack, locals) ← buffer.limits
  return { code with
    maxStack := max code.maxStack stack
    maxLocals := max code.maxLocals locals }

end ClassSplice.Edit
