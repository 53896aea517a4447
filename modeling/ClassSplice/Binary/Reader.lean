import ClassSplice.Binary.BigEndian
import ClassSplice.Binary.Fault

/-!
Reading the class file format: a reader takes a value off the front of the bytes and leaves the
rest. A reader that fails leaves nothing.
-/

namespace ClassSplice.Binary

abbrev Reader := StateT (List UInt8) (Except Fault)

namespace Reader

def take (n : Nat) : Reader (List UInt8) := fun input =>
  let (front, rest) := input.splitAt n
  if front.length < n then .error .endOfInput else .ok (front, rest)

def number (width : Nat) : Reader Nat :=
  BigEndian.value <$> take width

def u8 : Reader UInt8 :=
  UInt8.ofNat <$> number 1

def u16 : Reader UInt16 :=
  UInt16.ofNat <$> number 2

def u32 : Reader UInt32 :=
  UInt32.ofNat <$> number 4

def u64 : Reader UInt64 :=
  UInt64.ofNat <$> number 8

def i16 : Reader Int16 :=
  UInt16.toInt16 <$> u16

def i32 : Reader Int32 :=
  UInt32.toInt32 <$> u32

def i64 : Reader Int64 :=
  UInt64.toInt64 <$> u64

def timesOnto {α : Type} (item : Reader α) : Nat → List α → Reader (List α)
  | 0, read => pure read.reverse
  | n + 1, read => do
    let next ← item
    timesOnto item n (next :: read)

def times {α : Type} (n : Nat) (item : Reader α) : Reader (List α) :=
  timesOnto item n []

def counted {α : Type} (item : Reader α) : Reader (List α) := do
  let count ← u16
  times count.toNat item

def all? {α : Type} (reader : Reader α) (input : List UInt8) : Option α :=
  match reader input with
  | .ok (value, []) => some value
  | _ => none

end Reader
end ClassSplice.Binary
