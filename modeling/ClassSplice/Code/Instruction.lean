import ClassSplice.Binary.BigEndian
import ClassSplice.Code.Opcode
import ClassSplice.Error

/-!
Instructions in code bytes: where they start and end, and what they hold. An instruction that names
other places of the code is decoded with these as absolute offsets.

Main statements: `length_pos` (an instruction takes room) and `length_le` (it lies in the code).
-/

namespace ClassSplice.Code

open Binary (BigEndian.value BigEndian.bytes)

def bytesAt? (code : Array UInt8) (pos width : Nat) : Option (List UInt8) :=
  if pos + width ≤ code.size then some (code.extract pos (pos + width)).toList else none

def wordAt (code : Array UInt8) (pos width : Nat) : Except Error Nat :=
  match bytesAt? code pos width with
  | some bytes => .ok (BigEndian.value bytes)
  | none => .error (.truncatedInstruction pos)

def u16At (code : Array UInt8) (pos : Nat) : Except Error UInt16 :=
  (wordAt code pos 2).map UInt16.ofNat

def i16At (code : Array UInt8) (pos : Nat) : Except Error Int16 :=
  (u16At code pos).map UInt16.toInt16

def i32At (code : Array UInt8) (pos : Nat) : Except Error Int32 :=
  (wordAt code pos 4).map fun n => (UInt32.ofNat n).toInt32

def byteAt (code : Array UInt8) (pos : Nat) : Except Error UInt8 :=
  match code[pos]? with
  | some byte => .ok byte
  | none => .error (.truncatedInstruction pos)

/-- Bytes between the opcode of a switch at `pos` and its operands, which start at a multiple of
four. -/
def switchPadding (pos : Nat) : Nat :=
  3 - pos % 4

def switchOperands (pos : Nat) : Nat :=
  pos + 1 + switchPadding pos

def caseCount (low high : Int32) : Nat :=
  (high.toInt - low.toInt + 1).toNat

def isWidenable (opcode : Opcode) : Bool :=
  (Opcode.iload ≤ opcode && opcode ≤ Opcode.aload) ||
    (Opcode.istore ≤ opcode && opcode ≤ Opcode.astore) || opcode == Opcode.ret

def claimedLength (code : Array UInt8) (pos : Nat) : Opcode.Form → Except Error Nat
  | .fixed length => .ok length
  | .tableSwitch => do
    let low ← i32At code (switchOperands pos + 4)
    let high ← i32At code (switchOperands pos + 8)
    if high < low then .error (.malformedSwitch pos)
    else .ok (1 + switchPadding pos + 12 + 4 * caseCount low high)
  | .lookupSwitch => do
    let pairs ← i32At code (switchOperands pos + 4)
    if pairs < 0 then .error (.malformedSwitch pos)
    else .ok (1 + switchPadding pos + 8 + 8 * pairs.toInt.toNat)
  | .wide =>
    match code[pos + 1]? with
    | none => .error (.truncatedInstruction pos)
    | some opcode =>
      if opcode = Opcode.iinc then .ok 6
      else if isWidenable opcode then .ok 4
      else .error (.unknownOpcode (pos + 1) opcode)

def instructionLength (code : Array UInt8) (pos : Nat) : Except Error Nat := do
  let opcode ← byteAt code pos
  match Opcode.facts? opcode with
  | none => .error (.unknownOpcode pos opcode)
  | some facts =>
    let length ← claimedLength code pos facts.form
    if code.size < pos + length then .error (.truncatedInstruction pos) else .ok length

theorem form_table_pos : ∀ facts ∈ Opcode.table, facts.form ≠ .fixed 0 := by
  decide +kernel

theorem claimedLength_pos {code : Array UInt8} {pos length : Nat} {form : Opcode.Form}
    (nonempty : form ≠ .fixed 0) (claimed : claimedLength code pos form = .ok length) :
    0 < length := by
  cases form with
  | fixed n =>
    simp only [claimedLength, Except.ok.injEq] at claimed
    subst claimed
    exact Nat.pos_of_ne_zero fun zero => nonempty (by rw [zero])
  | tableSwitch | lookupSwitch =>
    simp only [claimedLength, bind, Except.bind] at claimed
    repeat' split at claimed
    all_goals grind
  | wide =>
    simp only [claimedLength] at claimed
    repeat' split at claimed
    all_goals grind

theorem instructionLength_eq {code : Array UInt8} {pos length : Nat}
    (decoded : instructionLength code pos = .ok length) :
    pos + length ≤ code.size ∧ ∃ form, form ≠ .fixed 0 ∧
      claimedLength code pos form = .ok length := by
  simp only [instructionLength, bind, Except.bind, Opcode.facts?] at decoded
  split at decoded
  · simp at decoded
  split at decoded
  · simp at decoded
  rename_i facts found
  split at decoded
  · simp at decoded
  rename_i claimed
  split at decoded
  · simp at decoded
  simp only [Except.ok.injEq] at decoded
  subst decoded
  exact ⟨by omega, facts.form, form_table_pos facts (Array.mem_of_getElem? found), claimed⟩

theorem length_pos {code : Array UInt8} {pos length : Nat}
    (decoded : instructionLength code pos = .ok length) : 0 < length := by
  obtain ⟨_, _, nonempty, claimed⟩ := instructionLength_eq decoded
  exact claimedLength_pos nonempty claimed

theorem length_le {code : Array UInt8} {pos length : Nat}
    (decoded : instructionLength code pos = .ok length) : pos + length ≤ code.size :=
  (instructionLength_eq decoded).1

structure Walk where
  starts : Array Nat
  stop : Nat
  error : Option Error

def walkOnto (code : Array UInt8) (starts : Array Nat) (pos : Nat) : Walk :=
  if pos < code.size then
    match decoded : instructionLength code pos with
    | .error error => ⟨starts, pos, some error⟩
    | .ok length =>
      have _advances := length_pos decoded
      walkOnto code (starts.push pos) (pos + length)
  else
    ⟨starts, pos, none⟩
termination_by code.size - pos

def walkFrom (code : Array UInt8) (pos : Nat) : Walk :=
  walkOnto code #[] pos

def instructionStarts (code : Array UInt8) : Except Error (Array Nat) :=
  let walk := walkFrom code 0
  match walk.error with
  | some error => .error error
  | none => .ok walk.starts

/-- Is there a switch among the instructions from `pos` on? The rest of the code is not looked at
once there is. -/
def containsSwitchFrom (code : Array UInt8) (pos : Nat) : Except Error Bool :=
  match code[pos]? with
  | none => .ok false
  | some opcode =>
    if Opcode.isSwitch opcode then .ok true
    else
      match decoded : instructionLength code pos with
      | .error error => .error error
      | .ok length =>
        have _advances := length_pos decoded
        have _inCode := length_le decoded
        containsSwitchFrom code (pos + length)
termination_by code.size - pos

def containsSwitch (code : Array UInt8) : Except Error Bool :=
  containsSwitchFrom code 0

/-- Opcode of the last instruction from `pos` on; where there is none, of the one before. -/
def lastOpcodeFrom (code : Array UInt8) (before : Option Opcode) (pos : Nat) :
    Except Error (Option Opcode) :=
  match code[pos]? with
  | none => .ok before
  | some opcode =>
    match decoded : instructionLength code pos with
    | .error error => .error error
    | .ok length =>
      have _advances := length_pos decoded
      have _inCode := length_le decoded
      lastOpcodeFrom code (some opcode) (pos + length)
termination_by code.size - pos

def lastOpcode? (code : Array UInt8) : Except Error (Option Opcode) :=
  lastOpcodeFrom code none 0

/-- What an instruction holds. Targets are absolute offsets and may lie outside of the code. -/
inductive Instruction where
  | plain (bytes : List UInt8)
  | branch (opcode : Opcode) (target : Int)
  | wideBranch (opcode : Opcode) (target : Int)
  | tableSwitch (default : Int) (low high : Int32) (targets : List Int)
  | lookupSwitch (default : Int) (cases : List (Int32 × Int))
  deriving DecidableEq, Repr

namespace Instruction

def isBranch : Instruction → Bool
  | plain _ => false
  | branch .. | wideBranch .. | tableSwitch .. | lookupSwitch .. => true

def targetsAt (code : Array UInt8) (pos operand stride count : Nat) : Except Error (List Int) :=
  (List.range count).mapM fun i => do
    return pos + (← i32At code (operand + stride * i)).toInt

def decode (code : Array UInt8) (pos length : Nat) : Except Error Instruction := do
  let opcode ← byteAt code pos
  if Opcode.isShortBranch opcode then
    return branch opcode (pos + (← i16At code (pos + 1)).toInt)
  else if Opcode.isWideBranch opcode then
    return wideBranch opcode (pos + (← i32At code (pos + 1)).toInt)
  else if opcode = Opcode.tableswitch then
    let operands := switchOperands pos
    let default ← i32At code operands
    let low ← i32At code (operands + 4)
    let high ← i32At code (operands + 8)
    let targets ← targetsAt code pos (operands + 12) 4 (caseCount low high)
    return tableSwitch (pos + default.toInt) low high targets
  else if opcode = Opcode.lookupswitch then
    let operands := switchOperands pos
    let default ← i32At code operands
    let count ← i32At code (operands + 4)
    let keys ← (List.range count.toInt.toNat).mapM fun i => i32At code (operands + 8 + 8 * i)
    let targets ← targetsAt code pos (operands + 12) 8 count.toInt.toNat
    return lookupSwitch (pos + default.toInt) (keys.zip targets)
  else
    return plain (code.extract pos (pos + length)).toList

end Instruction
end ClassSplice.Code
