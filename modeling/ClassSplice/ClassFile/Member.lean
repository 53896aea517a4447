import ClassSplice.ClassFile.Flags
import ClassSplice.Code.Codec
import ClassSplice.Descriptor.MethodType

namespace ClassSplice

open Binary

structure Member where
  flags : UInt16
  name : Pool.Index
  descriptor : Pool.Index
  attributes : List Attribute
  deriving DecidableEq, Repr

namespace Member

def read (knownFlags : UInt16) : Reader Member := do
  let flags ← Flags.read knownFlags
  return ⟨flags, ← Reader.u16, ← Reader.u16, ← Reader.counted Attribute.read⟩

def write (member : Member) : List UInt8 :=
  Writer.u16 member.flags ++ Writer.u16 member.name ++ Writer.u16 member.descriptor ++
    Writer.counted Attribute.write member.attributes

def nameText (member : Member) (pool : Pool) : Except Error String :=
  pool.textAt member.name

def descriptorText (member : Member) (pool : Pool) : Except Error String :=
  pool.textAt member.descriptor

def methodType (method : Member) (pool : Pool) : Except Error Descriptor.MethodType := do
  let text ← method.descriptorText pool
  match Descriptor.MethodType.parse text with
  | .ok type => return type
  | .error _ => .error (.badDescriptor text)

def isStatic (member : Member) : Bool :=
  Flags.has member.flags Flags.static

def code (method : Member) (pool : Pool) : Except Error (Option Code) :=
  match Attribute.find? method.attributes pool Code.attributeName with
  | none => .ok none
  | some attr => (Code.parse attr.info pool).map some

/-- Put an attribute in place of the first of its name, or behind all others. -/
def setAttribute (member : Member) (pool : Pool) (name : String) (attr : Attribute) : Member :=
  { member with attributes := Attribute.replace member.attributes pool name attr }

def removeAttribute (member : Member) (pool : Pool) (name : String) : Member :=
  { member with attributes := Attribute.remove member.attributes pool name }

def setCode (method : Member) (code : Code) : PoolM Member := do
  let attr ← Attribute.make Code.attributeName code.write
  return method.setAttribute (← get) Code.attributeName attr

end Member
end ClassSplice
