import ClassSplice.ClassFile.Basic
import ClassSplice.Descriptor.TypeName
import ClassSplice.Edit.Body

/-!
Editing sessions over a class. Writing the class out freezes it, and a frozen class refuses every
edit until it is thawed. An edit that fails leaves the class as it was, but for constants that it
added to the pool.
-/

namespace ClassSplice.Edit

open Descriptor (FieldType)

structure Editor where
  file : ClassFile
  frozen : Bool

abbrev EditM := ExceptT Fault (StateM Editor)

abbrev PoolEditM := ExceptT Fault (StateM Pool)

namespace Editor

def ofFile (file : ClassFile) : Editor :=
  ⟨file, false⟩

def parse (bytes : List UInt8) : Except Fault Editor :=
  (checked (ClassFile.parse bytes)).map ofFile

def freeze (editor : Editor) : Editor :=
  { editor with frozen := true }

def thaw (editor : Editor) : Editor :=
  { editor with frozen := false }

def className (editor : Editor) : Except Fault String :=
  checked editor.file.name

def methodNames (editor : Editor) : Except Fault (List (String × String)) :=
  checked <| editor.file.methods.toList.mapM fun method => do
    return (← method.nameText editor.file.pool, ← method.descriptorText editor.file.pool)

/-- Position of the only method of a name and, where one is given, a descriptor. -/
def findMethod (editor : Editor) (name : String) (descriptor : Option String) : Except Fault Nat :=
  match editor.file.findMethod name descriptor with
  | some index => .ok index
  | none => .error (.methodNotFound name descriptor)

def toBytes (editor : Editor) : Except Fault (List UInt8) × Editor :=
  (checked editor.file.toBytes, editor.freeze)

/-- What a file holds to which the class is written, and why that is not all of it, if so. The class is
frozen. -/
def save (editor : Editor) : Except Fault (List UInt8 × Option Fault) × Editor :=
  let contents : Except Fault (List UInt8 × Option Fault) := do
    let _ ← editor.className
    match checked editor.file.toBytes with
    | .ok bytes => return (bytes, none)
    | .error fault => return (editor.file.writtenPart, some fault)
  (contents, editor.freeze)

end Editor

def require {α : Type} : Except Error α → EditM α
  | .ok value => pure value
  | .error error => throw (.badClass error)

def requireThawed : EditM Unit := do
  let editor ← get
  if editor.frozen then throw (.frozen (editor.file.name.toOption.getD "<unnamed>"))

def methodAt (index : Nat) : EditM Member := do
  match (← get).file.methods[index]? with
  | some method => return method
  | none => throw (.methodNotFound "" none)

def setMethod (index : Nat) (method : Member) : EditM Unit :=
  modify fun editor =>
    { editor with file := { editor.file with
        methods := editor.file.methods.setIfInBounds index method } }

def onPool {α : Type} (step : PoolEditM α) : EditM α := fun editor =>
  let (result, pool) := step editor.file.pool
  (result, { editor with file := { editor.file with pool } })

def interned {α : Type} (change : PoolM α) : PoolEditM α :=
  ExceptT.adapt .badClass change

def demand {α : Type} (result : Except Error α) : PoolEditM α :=
  match checked result with
  | .ok value => pure value
  | .error fault => throw fault

def demandEdit {α : Type} (result : Except Fault α) : PoolEditM α :=
  match result with
  | .ok value => pure value
  | .error fault => throw fault

/-- Edit a copy of the body of a method and put it in place of the body if the edit succeeds and
the new body is sound. Verification frames are dropped. -/
def patchBody (index : Nat) (edit : Code → PoolEditM Code) : EditM Unit := do
  requireThawed
  let method ← methodAt index
  let file := (← get).file
  let name ← require (method.nameText file.pool)
  match ← require (method.code file.pool) with
  | none => throw (.missingBody name)
  | some code =>
    let method ← onPool do
      let code ← edit code
      demandEdit (checkBody code file.version)
      interned (method.setCode (code.withoutFrames (← get)))
    setMethod index method

def isConstructor (index : Nat) : EditM Bool := do
  let method ← methodAt index
  return (method.nameText (← get).file.pool).toOption == some constructorName

def classNameOf (name : String) : Except Fault String :=
  match FieldType.ofName name with
  | .ok (.object className) => .ok className
  | _ => .error (.badClassName name)

end ClassSplice.Edit
