import ClassSplice.ClassFile.Member
import ClassSplice.ClassFile.Version
import ClassSplice.Pool.Codec

namespace ClassSplice

open Binary

structure ClassFile where
  version : Version
  pool : Pool
  flags : UInt16
  thisClass : Pool.Index
  superClass : Pool.Index
  interfaces : List Pool.Index
  fields : List Member
  methods : Array Member
  attributes : List Attribute

namespace ClassFile

def magic : List UInt8 :=
  [0xCA, 0xFE, 0xBA, 0xBE]

def readBody : Reader ClassFile := do
  let version ← Version.read
  let pool ← Pool.read
  let flags ← Flags.read Flags.ofClass
  let thisClass ← Reader.u16
  let superClass ← Reader.u16
  let interfaces ← Reader.counted Reader.u16
  let fields ← Reader.counted (Member.read Flags.ofField)
  let methods ← Reader.counted (Member.read Flags.ofMethod)
  let attributes ← Reader.counted Attribute.read
  return { version, pool, flags, thisClass, superClass, interfaces, fields,
           methods := methods.toArray, attributes }

def name (file : ClassFile) : Except Error String :=
  file.pool.classNameAt file.thisClass

/-- The class in the bytes of a file, all of which must be used. The class must have a name. -/
def parse (bytes : List UInt8) : Except Error ClassFile :=
  match Reader.take 4 bytes with
  | .error fault => .error (.format fault)
  | .ok (start, bytes) =>
    if start ≠ magic then .error (.badMagic start)
    else
      match readBody bytes with
      | .error fault => .error (.format fault)
      | .ok (_, _ :: _) => .error (.format .trailingBytes)
      | .ok (file, []) => do
        let _ ← file.name
        return file

def write (file : ClassFile) : Except Fault (List UInt8) := do
  let pool ← file.pool.write
  return magic ++ file.version.write ++ pool ++
    Writer.u16 file.flags ++ Writer.u16 file.thisClass ++ Writer.u16 file.superClass ++
    Writer.counted Writer.u16 file.interfaces ++
    Writer.counted Member.write file.fields ++
    Writer.counted Member.write file.methods.toList ++
    Writer.counted Attribute.write file.attributes

def toBytes (file : ClassFile) : Except Error (List UInt8) :=
  file.write.mapError .format

/-- What is written of a class: all of it, or the part before the constant that cannot be. -/
def writtenPart (file : ClassFile) : List UInt8 :=
  match file.write with
  | .ok bytes => bytes
  | .error _ => magic ++ file.version.write ++ file.pool.writtenPart

def isCalled (pool : Pool) (name : String) (descriptor : Option String) (method : Member) : Bool :=
  (method.nameText pool).toOption == some name &&
    (descriptor.isNone || (method.descriptorText pool).toOption == descriptor)

/-- Position of the only method of a name and, where one is given, a descriptor. -/
def findMethod (file : ClassFile) (name : String) (descriptor : Option String) : Option Nat :=
  let called := fun index => match file.methods[index]? with
    | some method => isCalled file.pool name descriptor method
    | none => false
  match (List.range file.methods.size).filter called with
  | [index] => some index
  | _ => none

end ClassFile
end ClassSplice
