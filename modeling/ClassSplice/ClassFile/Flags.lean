import ClassSplice.Binary.Reader

/-!
Access flags of classes, methods and fields. Bits without a meaning are dropped when flags are
read.
-/

namespace ClassSplice.Flags

open Binary

/-- Public, final, super, interface, abstract, synthetic, annotation, enum, module. -/
def ofClass : UInt16 := 0xF631

/-- Public, private, protected, static, final, synchronized, bridge, varargs, native, abstract,
strict, synthetic. -/
def ofMethod : UInt16 := 0x1DFF

/-- Public, private, protected, static, final, volatile, transient, synthetic, enum. -/
def ofField : UInt16 := 0x50DF

def static : UInt16 := 0x0008

def native : UInt16 := 0x0100

def abstract : UInt16 := 0x0400

def read (known : UInt16) : Reader UInt16 := do
  return (← Reader.u16) &&& known

def has (flags flag : UInt16) : Bool :=
  flags &&& flag = flag

def clear (flags flag : UInt16) : UInt16 :=
  flags &&& ~~~flag

end ClassSplice.Flags
