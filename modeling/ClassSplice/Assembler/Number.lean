import ClassSplice.FloatingPoint.Literal

namespace ClassSplice.Assembler

def hexDigit? (c : Char) : Option Nat :=
  if c.isDigit then some (c.toNat - '0'.toNat)
  else if 'a' ≤ c ∧ c ≤ 'f' then some (c.toNat - 'a'.toNat + 10)
  else if 'A' ≤ c ∧ c ≤ 'F' then some (c.toNat - 'A'.toNat + 10)
  else none

def hexNumber? : List Char → Option Nat
  | [] => none
  | digits => digits.foldlM (fun high c => (hexDigit? c).map (high * 16 + ·)) 0

def signedHexNumber? : List Char → Option Int
  | '+' :: digits => (hexNumber? digits).map Int.ofNat
  | '-' :: digits => (hexNumber? digits).map fun n => -(n : Int)
  | digits => (hexNumber? digits).map Int.ofNat

def decimalNumber? (digits : List Char) : Option Int :=
  if digits ≠ [] ∧ digits.all Char.isDigit then some (FloatingPoint.Literal.natOfDigits digits)
  else none

def unsignedNumber? : List Char → Option Int
  | '0' :: 'x' :: digits => signedHexNumber? digits
  | digits => decimalNumber? digits

def int64? (n : Int) : Option Int64 :=
  if Int64.minValue.toInt ≤ n ∧ n ≤ Int64.maxValue.toInt then some (Int64.ofInt n) else none

/-- The number that an integer literal denotes, if its magnitude has 64 bits. -/
def readInteger? : List Char → Option Int64
  | '-' :: digits => (unsignedNumber? digits >>= int64?).map (-·)
  | digits => unsignedNumber? digits >>= int64?

def dropSuffix (suffixes : List Char) (word : List Char) : List Char :=
  match word.getLast? with
  | some c => if suffixes.contains c then word.dropLast else word
  | none => word

/-- The double that a floating-point literal denotes, which may have a type suffix. It starts with
a digit, a minus sign or a point. -/
def readDouble? (suffixes : List Char) (word : List Char) : Option Nat :=
  let literal := dropSuffix suffixes word
  match literal.head? with
  | some c =>
    if c.isDigit ∨ c = '-' ∨ c = '.' then
      (FloatingPoint.Literal.ofText? literal).map (·.bits .double)
    else none
  | none => none

def doubleLiteral? (word : List Char) : Option UInt64 :=
  (readDouble? ['d', 'D'] word).map UInt64.ofNat

def floatLiteral? (word : List Char) : Option UInt32 :=
  (readDouble? ['f', 'F'] word).map fun bits =>
    UInt32.ofNat (FloatingPoint.Format.double.convert .single bits)

end ClassSplice.Assembler
