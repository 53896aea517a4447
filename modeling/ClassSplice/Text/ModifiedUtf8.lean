import ClassSplice.Text.Utf16

namespace ClassSplice.Text.ModifiedUtf8

def bytesOf (unit : Nat) : List UInt8 :=
  if 1 ≤ unit ∧ unit ≤ 0x7F then
    [UInt8.ofNat unit]
  else if unit ≤ 0x7FF then
    [UInt8.ofNat (0xC0 + unit / 64), UInt8.ofNat (0x80 + unit % 64)]
  else
    [UInt8.ofNat (0xE0 + unit / 4096), UInt8.ofNat (0x80 + unit / 64 % 64),
      UInt8.ofNat (0x80 + unit % 64)]

def encode (text : String) : List UInt8 :=
  (Utf16.encode text.toList).flatMap bytesOf

def continuation? (byte : UInt8) : Option Nat :=
  if 0x80 ≤ byte.toNat ∧ byte.toNat < 0xC0 then some (byte.toNat - 0x80) else none

def unit? (lead : UInt8) (rest : List UInt8) : Option (Nat × List UInt8) :=
  if 0x01 ≤ lead.toNat ∧ lead.toNat ≤ 0x7F then
    some (lead.toNat, rest)
  else if 0xC0 ≤ lead.toNat ∧ lead.toNat ≤ 0xDF then
    match rest with
    | low :: rest => do
      let low ← continuation? low
      some ((lead.toNat - 0xC0) * 64 + low, rest)
    | [] => none
  else if 0xE0 ≤ lead.toNat ∧ lead.toNat ≤ 0xEF then
    match rest with
    | middle :: low :: rest => do
      let middle ← continuation? middle
      let low ← continuation? low
      some ((lead.toNat - 0xE0) * 4096 + middle * 64 + low, rest)
    | _ => none
  else
    none

theorem length_of_unit? {lead : UInt8} {rest rest' : List UInt8} {unit : Nat}
    (read : unit? lead rest = some (unit, rest')) : rest'.length ≤ rest.length := by
  unfold unit? at read
  repeat' split at read
  all_goals simp_all [Option.bind_eq_some_iff]
  all_goals grind

/-- The code units of the bytes, behind those already decoded, which are held in reverse. -/
def unitsOnto (decoded : List Nat) (bytes : List UInt8) : Option (List Nat) :=
  match bytes with
  | [] => some decoded.reverse
  | lead :: rest =>
    match read : unit? lead rest with
    | none => none
    | some (unit, rest') =>
      have _shorter := length_of_unit? read
      unitsOnto (unit :: decoded) rest'
termination_by bytes.length
decreasing_by simp only [List.length_cons]; omega

/-- The text that the bytes encode; surrogates must come in pairs. -/
def decode (bytes : List UInt8) : Option String := do
  let units ← unitsOnto [] bytes
  let text ← Utf16.decode units
  some (String.ofList text)

end ClassSplice.Text.ModifiedUtf8
