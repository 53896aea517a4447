namespace ClassSplice.Binary.BigEndian

/-- The number that the bytes denote, most significant byte first. -/
def value (bytes : List UInt8) : Nat :=
  bytes.foldl (fun high byte => high * 256 + byte.toNat) 0

/-- The low `width` bytes of a number, most significant byte first. -/
def bytes : Nat → Nat → List UInt8
  | 0, _ => []
  | width + 1, n => bytes width (n / 256) ++ [UInt8.ofNat n]

end ClassSplice.Binary.BigEndian
