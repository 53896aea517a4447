import ClassSplice.Edit.Editor

namespace ClassSplice.Edit

def setModifiers (index : Nat) (flags : UInt16) : EditM Unit := do
  requireThawed
  let method ← methodAt index
  setMethod index { method with flags }

def exceptionsName : String := "Exceptions"

/-- Names of the exceptions that a method declares, if it has such a declaration. -/
def exceptionTypes (method : Member) (pool : Pool) : Except Fault (Option (List String)) :=
  match Attribute.find? method.attributes pool exceptionsName with
  | none => .ok none
  | some attr => checked do
    let classes ← attr.decode exceptionsName (Binary.Reader.counted Binary.Reader.u16)
    return some (← classes.mapM pool.classNameAt)

def internClasses : List String → PoolEditM (List Pool.Index)
  | [] => return []
  | name :: names => do
    let className ← demandEdit (classNameOf name)
    let index ← interned (Pool.internClass className)
    return index :: (← internClasses names)

/-- Declare the exceptions of a method anew, or drop the declaration. -/
def setExceptionTypes (index : Nat) (names : Option (List String)) : EditM Unit := do
  requireThawed
  let method ← methodAt index
  match names with
  | none => setMethod index (method.removeAttribute (← get).file.pool exceptionsName)
  | some names =>
    let attr ← onPool do
      let classes ← internClasses names
      interned (Attribute.make exceptionsName (Binary.Writer.counted Binary.Writer.u16 classes))
    setMethod index (method.setAttribute (← get).file.pool exceptionsName attr)

def attributeContents (method : Member) (pool : Pool) (name : String) : Option (List UInt8) :=
  (Attribute.find? method.attributes pool name).map Attribute.info

/-- Set the contents of an attribute: of the first whose name has the index that the name has in
the pool, or of a new one. -/
def setAttribute (index : Nat) (name : String) (data : List UInt8) : EditM Unit := do
  requireThawed
  let method ← methodAt index
  let nameIndex ← onPool (interned (Pool.internText name))
  let attributes := match method.attributes.findIdx? (·.name == nameIndex) with
    | some position => method.attributes.set position ⟨nameIndex, data⟩
    | none => method.attributes ++ [⟨nameIndex, data⟩]
  setMethod index { method with attributes }

end ClassSplice.Edit
