import ClassSplice.Error
import Std.Data.HashMap

/-!
The constant pool of a class file. Entries are only ever added, at the end, so an index that was
handed out stays valid; a constant that is already present is found again instead of added twice.
-/

namespace ClassSplice

structure Pool where
  constants : OffsetTable Pool.Constant
  indices : Std.HashMap Pool.Constant Pool.Index

namespace Pool

def empty : Pool :=
  ⟨.startingAt 1, ∅⟩

instance : Inhabited Pool :=
  ⟨empty⟩

/-- Index that the next constant will have: one more than the indices in use, with index zero. -/
def next (pool : Pool) : Nat :=
  pool.constants.next

def capacity : Nat := 65535

def hasRoomFor (pool : Pool) (constant : Constant) : Bool :=
  pool.next + constant.width ≤ capacity

def push : Pool → Constant → Pool
  | ⟨constants, indices⟩, constant =>
    let index := UInt16.ofNat constants.next
    ⟨constants.push constant, indices.insertIfNew constant index⟩

@[simp] theorem next_push (pool : Pool) (constant : Constant) :
    (pool.push constant).next = pool.next + constant.width :=
  rfl

def entries (pool : Pool) : List (Index × Constant) :=
  pool.constants.entries.toList.map fun (offset, constant) => (UInt16.ofNat offset, constant)

def get (pool : Pool) (index : Index) : Except Error Constant :=
  match pool.constants.at? index.toNat with
  | some constant => .ok constant
  | none => .error (.missingConstant index)

def textAt (pool : Pool) (index : Index) : Except Error String := do
  match ← pool.get index with
  | .text value => .ok value
  | _ => .error (.unexpectedConstant index "Utf8")

def classNameAt (pool : Pool) (index : Index) : Except Error String := do
  match ← pool.get index with
  | .classRef name => pool.textAt name
  | _ => .error (.unexpectedConstant index "Class")

def checkClass (pool : Pool) (index : Index) : Except Error Index := do
  match ← pool.get index with
  | .classRef _ => .ok index
  | _ => .error (.unexpectedConstant index "Class")

end Pool

abbrev PoolM := ExceptT Error (StateM Pool)

namespace Pool

/-- The first index of a constant, which is added if the pool does not hold it. -/
def intern (constant : Constant) : PoolM Index := fun pool =>
  match pool.indices[constant]? with
  | some index => (.ok index, pool)
  | none =>
    if pool.hasRoomFor constant then
      (.ok (UInt16.ofNat pool.next), pool.push constant)
    else
      (.error (.poolFull constant pool.next), pool)

def internText (value : String) : PoolM Index :=
  intern (.text value)

/-- A class constant, for an internal name or the descriptor of an array. -/
def internClass (name : String) : PoolM Index := do
  intern (.classRef (← internText name))

def internString (value : String) : PoolM Index := do
  intern (.string (← internText value))

def internNameAndType (name descriptor : String) : PoolM Index := do
  let name ← internText name
  let descriptor ← internText descriptor
  intern (.nameAndType name descriptor)

def internField (owner name descriptor : String) : PoolM Index := do
  let owner ← internClass owner
  let nameAndType ← internNameAndType name descriptor
  intern (.fieldRef owner nameAndType)

def internMethod (owner name descriptor : String) (isInterface : Bool) : PoolM Index := do
  let owner ← internClass owner
  let nameAndType ← internNameAndType name descriptor
  intern (.methodRef owner nameAndType isInterface)

end Pool
end ClassSplice
