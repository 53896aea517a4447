import ClassSplice.ClassFile.Attribute
import ClassSplice.Code.Debug
import ClassSplice.Code.HandlerTable

namespace ClassSplice

/-- An attribute of a method body. Decoded ones keep the index of their name. -/
inductive Code.BodyAttribute where
  | lines (name : Pool.Index) (rows : List LineNumber)
  | locals (name : Pool.Index) (rows : List LocalRange)
  | localTypes (name : Pool.Index) (rows : List LocalRange)
  | other (raw : Attribute)
  deriving DecidableEq, Repr

structure Code where
  maxStack : UInt16
  maxLocals : UInt16
  bytes : Array UInt8
  handlers : Code.HandlerTable
  attributes : List Code.BodyAttribute
  deriving DecidableEq, Repr

namespace Code

def maxLength : Nat := 65535

def debugOffset (offset : Nat) : Except Error UInt16 :=
  if offset ≤ 65535 then .ok (UInt16.ofNat offset) else .error (.codeTooLong offset)

def LineNumber.relocate (relocated : Nat → Except Error Nat) (row : LineNumber) :
    LineNumber × Option Error :=
  match relocated row.start.toNat >>= debugOffset with
  | .ok start => ({ row with start }, none)
  | .error error => (row, some error)

/-- Both ends of the range are moved; where only the new length does not fit, the start has been
moved already. -/
def LocalRange.relocate (relocated : Nat → Except Error Nat) (row : LocalRange) :
    LocalRange × Option Error :=
  let ends : Except Error (Nat × Nat × UInt16) := do
    let start ← relocated row.start.toNat
    let stop ← relocated (row.start.toNat + row.length.toNat)
    return (start, stop, ← debugOffset start)
  match ends with
  | .error error => (row, some error)
  | .ok (start, stop, newStart) =>
    match debugOffset (stop - start) with
    | .ok length => ({ row with start := newStart, length }, none)
    | .error error => ({ row with start := newStart }, some error)

/-- Change the items in order until a change fails; those behind it stay. The items already changed
are held in reverse. -/
def changeOnto {α : Type} (change : α → α × Option Error) (changed : List α) :
    List α → List α × Option Error
  | [] => (changed.reverse, none)
  | item :: rest =>
    match change item with
    | (item, none) => changeOnto change (item :: changed) rest
    | (item, some error) => (changed.reverseAux (item :: rest), some error)

def changeAll {α : Type} (change : α → α × Option Error) (items : List α) :
    List α × Option Error :=
  changeOnto change [] items

def BodyAttribute.relocate (relocated : Nat → Except Error Nat) :
    BodyAttribute → BodyAttribute × Option Error
  | lines name rows => (changeAll (LineNumber.relocate relocated) rows).map (lines name) id
  | locals name rows => (changeAll (LocalRange.relocate relocated) rows).map (locals name) id
  | localTypes name rows =>
    (changeAll (LocalRange.relocate relocated) rows).map (localTypes name) id
  | other raw => (other raw, none)

def relocateDebug (code : Code) (relocated : Nat → Except Error Nat) : Code × Option Error :=
  let (attributes, error) := changeAll (BodyAttribute.relocate relocated) code.attributes
  ({ code with attributes }, error)

def framesName : String := "StackMapTable"

def BodyAttribute.isFrames (pool : Pool) : BodyAttribute → Bool
  | other raw => raw.isNamed pool framesName
  | _ => false

def withoutFrames (code : Code) (pool : Pool) : Code :=
  { code with attributes := code.attributes.filter (!·.isFrames pool) }

def hasFrames (code : Code) (pool : Pool) : Bool :=
  code.attributes.any (·.isFrames pool)

end Code
end ClassSplice
