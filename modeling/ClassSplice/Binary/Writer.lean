import ClassSplice.Binary.BigEndian

namespace ClassSplice.Binary.Writer

def u8 (byte : UInt8) : List UInt8 :=
  [byte]

def u16 (word : UInt16) : List UInt8 :=
  BigEndian.bytes 2 word.toNat

def u32 (word : UInt32) : List UInt8 :=
  BigEndian.bytes 4 word.toNat

def u64 (word : UInt64) : List UInt8 :=
  BigEndian.bytes 8 word.toNat

def i16 (word : Int16) : List UInt8 :=
  u16 word.toUInt16

def i32 (word : Int32) : List UInt8 :=
  u32 word.toUInt32

def i64 (word : Int64) : List UInt8 :=
  u64 word.toUInt64

def counted {α : Type} (item : α → List UInt8) (items : List α) : List UInt8 :=
  u16 (UInt16.ofNat items.length) ++ items.flatMap item

end ClassSplice.Binary.Writer
