import ClassSplice.Code.HandlerTable
import ClassSplice.Code.Opcode
import ClassSplice.Descriptor.FieldType
import ClassSplice.Pool.Basic
import ClassSplice.Word

/-!
New code under construction: instructions are added at the end, while the operand stack depth is
followed and the highest depth and the local variable slots in use are remembered. Handlers are
relative to the start of the buffer.
-/

namespace ClassSplice

open Descriptor (ValueKind)

namespace Descriptor.ValueKind

open Code

def family : ValueKind → UInt8
  | int => 0
  | long => 1
  | float => 2
  | double => 3
  | reference => 4

def loadOpcode (kind : ValueKind) : Opcode :=
  Opcode.iload + kind.family

def storeOpcode (kind : ValueKind) : Opcode :=
  Opcode.istore + kind.family

def returnOpcode (kind : ValueKind) : Opcode :=
  Opcode.ireturn + kind.family

def zeroOpcode : ValueKind → Opcode
  | int => Opcode.iconst0
  | long => Opcode.lconst0
  | float => Opcode.fconst0
  | double => Opcode.dconst0
  | reference => Opcode.aconstNull

end Descriptor.ValueKind

namespace Code

structure Buffer where
  bytes : Array UInt8
  /-- Operand stack depth behind the last instruction. It is followed without bounds, which makes no
  difference where it fits 32 bits. -/
  depth : Int
  maxStack : Nat
  maxLocals : Nat
  handlers : HandlerTable
  deriving DecidableEq, Repr

namespace Buffer

def empty (maxStack maxLocals : Nat) : Buffer :=
  ⟨#[], 0, maxStack, maxLocals, []⟩

def pc (buffer : Buffer) : Nat :=
  buffer.bytes.size

def setDepth (buffer : Buffer) (depth : Int) : Buffer :=
  { buffer with depth, maxStack := max buffer.maxStack depth.toNat }

def grow (buffer : Buffer) (change : Int) : Buffer :=
  buffer.setDepth (buffer.depth + change)

def reserveLocals (buffer : Buffer) (slots : Nat) : Buffer :=
  { buffer with maxLocals := max buffer.maxLocals slots }

def allocateLocal (buffer : Buffer) (width : Nat) : Except Error (Nat × Buffer) :=
  if buffer.maxLocals + width < wordLimit then
    .ok (buffer.maxLocals, { buffer with maxLocals := buffer.maxLocals + width })
  else
    .error .overflow

def limits (buffer : Buffer) : Except Error (UInt16 × UInt16) :=
  if 65535 < buffer.maxStack then .error (.stackTooDeep buffer.maxStack)
  else if 65535 < buffer.maxLocals then .error (.tooManyLocals buffer.maxLocals)
  else .ok (UInt16.ofNat buffer.maxStack, UInt16.ofNat buffer.maxLocals)

def addByte (buffer : Buffer) (byte : UInt8) : Buffer :=
  { buffer with bytes := buffer.bytes.push byte }

def addBytes (buffer : Buffer) (bytes : List UInt8) : Buffer :=
  { buffer with bytes := buffer.bytes ++ bytes }

def addU16 (buffer : Buffer) (word : UInt16) : Buffer :=
  buffer.addBytes (Binary.Writer.u16 word)

def addI32 (buffer : Buffer) (word : Int32) : Buffer :=
  buffer.addBytes (Binary.Writer.i32 word)

def overwrite (buffer : Buffer) (pos : Nat) : List UInt8 → Buffer
  | [] => buffer
  | byte :: rest =>
    overwrite { buffer with bytes := buffer.bytes.setIfInBounds pos byte } (pos + 1) rest

def addOpcode (buffer : Buffer) (opcode : Opcode) : Buffer :=
  (buffer.addByte opcode).grow opcode.growth

def addIndexed (buffer : Buffer) (opcode : Opcode) (index : Pool.Index) : Buffer :=
  (buffer.addOpcode opcode).addU16 index

/-- Add an instruction with a local variable slot as its operand, widened if need be. -/
def addSlotted (buffer : Buffer) (opcode : Opcode) (slot : Nat) : Except Error Buffer :=
  if slot ≤ 255 then
    .ok ((buffer.addOpcode opcode).addByte (UInt8.ofNat slot))
  else if slot ≤ 65535 then
    .ok (((buffer.addByte Opcode.wide).addOpcode opcode).addU16 (UInt16.ofNat slot))
  else
    .error (.tooManyLocals slot)

/-- Move a local variable in the shortest form. The first four slots have opcodes of their own,
which are grouped by kind from `short` on. -/
def addAccess (buffer : Buffer) (opcode short : Opcode) (kind : ValueKind) (slot : Nat) :
    Except Error Buffer := do
  let added ←
    if slot < 4 then
      Except.ok (buffer.addOpcode (short + kind.family * 4 + UInt8.ofNat slot))
    else
      buffer.addSlotted opcode slot
  return added.reserveLocals (slot + kind.slots)

def addLoad (buffer : Buffer) (slot : Nat) (kind : ValueKind) : Except Error Buffer :=
  buffer.addAccess kind.loadOpcode Opcode.iload0 kind slot

def addStore (buffer : Buffer) (slot : Nat) (kind : ValueKind) : Except Error Buffer :=
  buffer.addAccess kind.storeOpcode Opcode.istore0 kind slot

def addRet (buffer : Buffer) (slot : Nat) : Except Error Buffer := do
  return (← buffer.addSlotted Opcode.ret slot).reserveLocals (slot + 1)

def addLdc (buffer : Buffer) (index : Pool.Index) : Buffer :=
  if index ≤ 255 then (buffer.addOpcode Opcode.ldc).addByte index.toUInt8
  else buffer.addIndexed Opcode.ldcW index

def addLdc2 (buffer : Buffer) (index : Pool.Index) : Buffer :=
  buffer.addIndexed Opcode.ldc2W index

def addInteger (buffer : Buffer) (value : Int32) : PoolM Buffer := do
  let n := value.toInt
  if -1 ≤ n ∧ n ≤ 5 then
    return buffer.addOpcode (UInt8.ofNat (Opcode.iconst0.toNat + n).toNat)
  else if -128 ≤ n ∧ n ≤ 127 then
    return (buffer.addOpcode Opcode.bipush).addByte value.toInt8.toUInt8
  else if -32768 ≤ n ∧ n ≤ 32767 then
    return (buffer.addOpcode Opcode.sipush).addU16 value.toInt16.toUInt16
  else
    return buffer.addLdc (← Pool.intern (.integer value))

def addZero (buffer : Buffer) (kind : ValueKind) : Buffer :=
  buffer.addOpcode kind.zeroOpcode

def addHandler (buffer : Buffer) (start stop target : Nat) (catchType : Pool.Index) :
    Except Error Buffer := do
  return { buffer with handlers := ← buffer.handlers.add start stop target catchType }

end Buffer
end Code
end ClassSplice
