import ClassSplice.Binary.Reader
import ClassSplice.Binary.Writer

namespace ClassSplice.Code

open Binary

structure LineNumber where
  start : UInt16
  line : UInt16
  deriving DecidableEq, Repr

namespace LineNumber

def read : Reader LineNumber := do
  return ⟨← Reader.u16, ← Reader.u16⟩

def write (row : LineNumber) : List UInt8 :=
  Writer.u16 row.start ++ Writer.u16 row.line

end LineNumber

structure LocalRange where
  start : UInt16
  length : UInt16
  name : UInt16
  descriptor : UInt16
  slot : UInt16
  deriving DecidableEq, Repr

namespace LocalRange

def read : Reader LocalRange := do
  return ⟨← Reader.u16, ← Reader.u16, ← Reader.u16, ← Reader.u16, ← Reader.u16⟩

def write (row : LocalRange) : List UInt8 :=
  Writer.u16 row.start ++ Writer.u16 row.length ++ Writer.u16 row.name ++
    Writer.u16 row.descriptor ++ Writer.u16 row.slot

end LocalRange
end ClassSplice.Code
