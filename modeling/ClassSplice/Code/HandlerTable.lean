import ClassSplice.Binary.Reader
import ClassSplice.Binary.Writer
import ClassSplice.Error

/-!
Exception tables. When an exception is thrown, the first entry counts whose range holds the
throwing instruction and whose class matches, so inner handlers stand before outer ones.
-/

namespace ClassSplice.Code

open Binary

def Handler.offset (offset : Nat) : Except Error UInt16 :=
  if offset ≤ 65535 then .ok (UInt16.ofNat offset)
  else .error (.badHandlers (.offsetTooLarge offset))

def Handler.make (start stop target : Nat) (catchType : Pool.Index) : Except Error Handler := do
  if stop ≤ start then .error (.badHandlers (.emptyRange start stop))
  else
    let start ← offset start
    let stop ← offset stop
    let target ← offset target
    return ⟨start, stop, target, catchType⟩

def Handler.read : Reader Handler := do
  return ⟨← Reader.u16, ← Reader.u16, ← Reader.u16, ← Reader.u16⟩

def Handler.write (handler : Handler) : List UInt8 :=
  Writer.u16 handler.start ++ Writer.u16 handler.stop ++ Writer.u16 handler.target ++
    Writer.u16 handler.catchType

def Handler.relocate (relocated : Nat → Except Error Nat) (handler : Handler) :
    Except Error Handler := do
  let start ← relocated handler.start.toNat
  let stop ← relocated handler.stop.toNat
  let target ← relocated handler.target.toNat
  make start stop target handler.catchType

def Handler.fits (handler : Handler) (codeLength : Nat) (isBoundary : Nat → Bool) : Bool :=
  let start := handler.start.toNat
  let stop := handler.stop.toNat
  let target := handler.target.toNat
  start < stop && isBoundary start &&
    (stop == codeLength || (stop < codeLength && isBoundary stop)) &&
    target < codeLength && isBoundary target

abbrev HandlerTable := List Handler

namespace HandlerTable

def add (table : HandlerTable) (start stop target : Nat) (catchType : Pool.Index) :
    Except Error HandlerTable := do
  return table ++ [← Handler.make start stop target catchType]

def addAt (table : HandlerTable) (index start stop target : Nat) (catchType : Pool.Index) :
    Except Error HandlerTable := do
  return table.insertIdx index (← Handler.make start stop target catchType)

def relocate (table : HandlerTable) (relocated : Nat → Except Error Nat) :
    Except Error HandlerTable :=
  table.mapM (Handler.relocate relocated)

def shifted (table : HandlerTable) (offset : Nat) : Except Error HandlerTable :=
  table.relocate (checkedSum · offset)

/-- Entries of less priority than all others, for code that starts at `offset`. -/
def append (table fragment : HandlerTable) (offset : Nat) : Except Error HandlerTable := do
  return table ++ (← shifted fragment offset)

def prepend (table fragment : HandlerTable) (offset : Nat) : Except Error HandlerTable := do
  return (← shifted fragment offset) ++ table

def validate (table : HandlerTable) (codeLength : Nat) (isBoundary : Nat → Bool) :
    Except Error Unit :=
  match table.find? (!·.fits codeLength isBoundary) with
  | some handler => .error (.badHandlers (.misfit handler codeLength))
  | none => .ok ()

def read : Reader HandlerTable :=
  Reader.counted Handler.read

def write (table : HandlerTable) : List UInt8 :=
  Writer.counted Handler.write table

end HandlerTable
end ClassSplice.Code
