import ClassSplice.Binary.Reader
import ClassSplice.Binary.Writer
import ClassSplice.Pool.Basic
import ClassSplice.Text.ModifiedUtf8

namespace ClassSplice.Pool

open Binary (Fault Reader Writer.u8 Writer.u16)

namespace Constant

def tag : Constant → UInt8
  | text _ => 1
  | integer _ => 3
  | float _ => 4
  | long _ => 5
  | double _ => 6
  | classRef _ => 7
  | string _ => 8
  | fieldRef _ _ => 9
  | methodRef _ _ false => 10
  | methodRef _ _ true => 11
  | nameAndType _ _ => 12
  | methodHandle _ _ => 15
  | methodType _ => 16
  | dynamic _ _ => 17
  | invokeDynamic _ _ => 18
  | moduleName _ => 19
  | packageName _ => 20

def readText : Reader Constant := do
  let length ← Reader.u16
  let bytes ← Reader.take length.toNat
  match Text.ModifiedUtf8.decode bytes with
  | some value => pure (text value)
  | none => throw .malformedText

def readTagged (tag : UInt8) : Reader Constant :=
  let index := Reader.u16
  match tag.toNat with
  | 1 => readText
  | 3 => integer <$> Reader.i32
  | 4 => float <$> Reader.u32
  | 5 => long <$> Reader.i64
  | 6 => double <$> Reader.u64
  | 7 => classRef <$> index
  | 8 => string <$> index
  | 9 => return fieldRef (← index) (← index)
  | 10 => return methodRef (← index) (← index) false
  | 11 => return methodRef (← index) (← index) true
  | 12 => return nameAndType (← index) (← index)
  | 15 => return methodHandle (← Reader.u8) (← index)
  | 16 => methodType <$> index
  | 17 => return dynamic (← Reader.u16) (← index)
  | 18 => return invokeDynamic (← Reader.u16) (← index)
  | 19 => moduleName <$> index
  | 20 => packageName <$> index
  | _ => throw (.unknownTag tag)

def read : Reader Constant := do
  readTagged (← Reader.u8)

def writeContent : Constant → Except Fault (List UInt8)
  | text value =>
    let bytes := Text.ModifiedUtf8.encode value
    if 65535 < bytes.length then .error .textTooLong
    else .ok (Writer.u16 (UInt16.ofNat bytes.length) ++ bytes)
  | integer value => .ok (Binary.Writer.i32 value)
  | float bits => .ok (Binary.Writer.u32 bits)
  | long value => .ok (Binary.Writer.i64 value)
  | double bits => .ok (Binary.Writer.u64 bits)
  | classRef index | string index | methodType index | moduleName index | packageName index =>
    .ok (Writer.u16 index)
  | fieldRef first second | methodRef first second _ | nameAndType first second
  | dynamic first second | invokeDynamic first second =>
    .ok (Writer.u16 first ++ Writer.u16 second)
  | methodHandle kind reference => .ok (Writer.u8 kind ++ Writer.u16 reference)

def write (constant : Constant) : Except Fault (List UInt8) := do
  return constant.tag :: (← constant.writeContent)

end Constant

def readOnto (count : Nat) (pool : Pool) : Reader Pool := fun input =>
  if pool.next < count then
    match Constant.read input with
    | .error fault => .error (.inConstant (UInt16.ofNat pool.next) fault)
    | .ok (constant, input) =>
      have _wider := constant.width_pos
      if pool.hasRoomFor constant then readOnto count (pool.push constant) input
      else .error .poolOverflow
  else if pool.next = count then .ok (pool, input)
  else .error .straddlingConstant
termination_by count - pool.next
decreasing_by simp only [next_push]; omega

def read : Reader Pool := do
  let count ← Reader.u16
  readOnto count.toNat empty

def write (pool : Pool) : Except Fault (List UInt8) := do
  let constants ← pool.constants.toList.mapM Constant.write
  return Writer.u16 (UInt16.ofNat pool.next) ++ constants.flatten

def writtenConstants : List Constant → List UInt8
  | [] => []
  | constant :: constants =>
    match constant.write with
    | .ok bytes => bytes ++ writtenConstants constants
    | .error _ => [constant.tag]

def writtenPart (pool : Pool) : List UInt8 :=
  Writer.u16 (UInt16.ofNat pool.next) ++ writtenConstants pool.constants.toList

end ClassSplice.Pool
