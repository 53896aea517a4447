namespace ClassSplice.Text.Utf16

def unitsOf (c : Char) : List Nat :=
  if c.toNat < 0x10000 then [c.toNat]
  else [0xD800 + (c.toNat - 0x10000) / 0x400, 0xDC00 + (c.toNat - 0x10000) % 0x400]

def encode (text : List Char) : List Nat :=
  text.flatMap unitsOf

def isHighSurrogate (unit : Nat) : Bool :=
  0xD800 ≤ unit && unit < 0xDC00

def isLowSurrogate (unit : Nat) : Bool :=
  0xDC00 ≤ unit && unit < 0xE000

/-- The characters of the code units, behind those already decoded, which are held in reverse. A
surrogate without its partner is refused. -/
def decodeOnto (decoded : List Char) : List Nat → Option (List Char)
  | [] => some decoded.reverse
  | unit :: rest =>
    if isHighSurrogate unit then
      match rest with
      | low :: rest =>
        if isLowSurrogate low then
          decodeOnto (Char.ofNat (0x10000 + (unit - 0xD800) * 0x400 + (low - 0xDC00)) :: decoded) rest
        else none
      | [] => none
    else if isLowSurrogate unit then none
    else decodeOnto (Char.ofNat unit :: decoded) rest

def decode (units : List Nat) : Option (List Char) :=
  decodeOnto [] units

end ClassSplice.Text.Utf16
