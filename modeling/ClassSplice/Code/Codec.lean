import ClassSplice.Code.Basic

namespace ClassSplice.Code

open Binary

def attributeName : String := "Code"

def linesName : String := "LineNumberTable"

def localsName : String := "LocalVariableTable"

def localTypesName : String := "LocalVariableTypeTable"

def BodyAttribute.resolve (pool : Pool) (raw : Attribute) : Except Error BodyAttribute := do
  let name ← pool.textAt raw.name
  if name = linesName then
    return lines raw.name (← raw.decode name (Reader.counted LineNumber.read))
  else if name = localsName then
    return locals raw.name (← raw.decode name (Reader.counted LocalRange.read))
  else if name = localTypesName then
    return localTypes raw.name (← raw.decode name (Reader.counted LocalRange.read))
  else
    return other raw

def BodyAttribute.raw : BodyAttribute → Attribute
  | lines name rows => ⟨name, Writer.counted LineNumber.write rows⟩
  | locals name rows | localTypes name rows => ⟨name, Writer.counted LocalRange.write rows⟩
  | other raw => raw

def readHead : Reader (UInt16 × UInt16 × UInt32) := do
  return (← Reader.u16, ← Reader.u16, ← Reader.u32)

def readTail (length : Nat) : Reader (List UInt8 × HandlerTable × List Attribute) := do
  return (← Reader.take length, ← HandlerTable.read, ← Reader.counted Attribute.read)

/-- The body in the contents of a `Code` attribute, all of which must be used. -/
def parse (info : List UInt8) (pool : Pool) : Except Error Code :=
  match readHead info with
  | .error _ => .error (.malformedAttribute attributeName)
  | .ok ((maxStack, maxLocals, length), info) =>
    if length = 0 ∨ maxLength < length.toNat then .error (.codeTooLong length.toNat)
    else
      match readTail length.toNat info with
      | .error _ => .error (.malformedAttribute attributeName)
      | .ok ((bytes, handlers, raw), rest) => do
        let attributes ← raw.mapM (BodyAttribute.resolve pool)
        if rest.isEmpty then return ⟨maxStack, maxLocals, bytes.toArray, handlers, attributes⟩
        else .error (.malformedAttribute attributeName)

def write (code : Code) : List UInt8 :=
  Writer.u16 code.maxStack ++ Writer.u16 code.maxLocals ++
    Writer.u32 (UInt32.ofNat code.bytes.size) ++ code.bytes.toList ++
    code.handlers.write ++
    Writer.counted (fun body => body.raw.write) code.attributes

end ClassSplice.Code
