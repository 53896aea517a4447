import ClassSplice.Binary.Reader
import ClassSplice.Binary.Writer
import ClassSplice.Pool.Basic

namespace ClassSplice

open Binary

structure Attribute where
  name : Pool.Index
  info : List UInt8
  deriving DecidableEq, Repr

namespace Attribute

def read : Reader Attribute := do
  let name ← Reader.u16
  let length ← Reader.u32
  return ⟨name, ← Reader.take length.toNat⟩

def write (attr : Attribute) : List UInt8 :=
  Writer.u16 attr.name ++ Writer.u32 (UInt32.ofNat attr.info.length) ++ attr.info

/-- Is the attribute named `name`? A name index without a text behind it is no name. -/
def isNamed (attr : Attribute) (pool : Pool) (name : String) : Bool :=
  match pool.textAt attr.name with
  | .ok text => text == name
  | .error _ => false

/-- Read the contents of an attribute of the given name, all of which must be used. -/
def decode {α : Type} (attr : Attribute) (name : String) (reader : Reader α) :
    Except Error α :=
  match reader.all? attr.info with
  | some value => .ok value
  | none => .error (.malformedAttribute name)

def make (name : String) (info : List UInt8) : PoolM Attribute := do
  return ⟨← Pool.internText name, info⟩

def find? (attributes : List Attribute) (pool : Pool) (name : String) : Option Attribute :=
  attributes.find? (·.isNamed pool name)

def position? (attributes : List Attribute) (pool : Pool) (name : String) : Option Nat :=
  attributes.findIdx? (·.isNamed pool name)

/-- Put an attribute in place of the first of a name, or behind all others if there is none. -/
def replace (attributes : List Attribute) (pool : Pool) (name : String) (new : Attribute) :
    List Attribute :=
  match position? attributes pool name with
  | some position => attributes.set position new
  | none => attributes ++ [new]

def remove (attributes : List Attribute) (pool : Pool) (name : String) : List Attribute :=
  attributes.filter (!·.isNamed pool name)

end Attribute
end ClassSplice
