import ClassSplice.Assembler.Assembly
import ClassSplice.Code.Instruction
import ClassSplice.Descriptor.TypeName

namespace ClassSplice.Assembler

open Code (Opcode)
open Descriptor (FieldType MethodType ValueKind)

def typeOf (word : String) : AssemblyM FieldType :=
  match FieldType.ofName word with
  | .ok type => return type
  | .error _ => fail (.badType word)

def classConstant (word : String) : AssemblyM Pool.Index := do
  match (← typeOf word).className? with
  | some name => inPool (Pool.internClass name)
  | none => fail (.badType word)

structure MemberName where
  owner : String
  name : String
  descriptor : String
  deriving DecidableEq, Repr

def splitFirst? (separator : Char) (text : List Char) : Option (List Char × List Char) :=
  match text.dropWhile (· ≠ separator) with
  | [] => none
  | _ :: behind => some (text.takeWhile (· ≠ separator), behind)

def splitLast? (separator : Char) (text : List Char) : Option (List Char × List Char) :=
  (splitFirst? separator text.reverse).map fun (behind, front) => (front.reverse, behind.reverse)

/-- A member written `Owner.name:Descriptor`, no part of which is empty. Dots in the owner count as
slashes. -/
def MemberName.ofWord? (word : String) : Option MemberName := do
  let (path, descriptor) ← splitFirst? ':' word.toList
  let (owner, name) ← splitLast? '.' path
  if owner.isEmpty || name.isEmpty || descriptor.isEmpty then none
  else
    some ⟨Descriptor.internalName owner, String.ofList name, String.ofList descriptor⟩

def nextMember (what : String) : AssemblyM MemberName := do
  let word ← nextWord what
  match MemberName.ofWord? word with
  | some member => return member
  | none => failSyntax (.foundWord "Owner.name:Descriptor" word)

def nextSlot : AssemblyM Nat := do
  let word ← nextWord "local variable"
  match readInteger? word.toList with
  | some slot =>
    if 0 ≤ slot.toInt then return slot.toInt.toNat else failSyntax (.badSlot slot.toInt)
  | none =>
    match (← get).scope.find? word with
    | some var => return var.slot
    | none => fail (.unknownVariable word)

def nextConstant : AssemblyM Pool.Index := do
  match ← nextOperand "constant" with
  | .quoted text => inPool (Pool.internString text)
  | .word word =>
    match readInteger? word.toList with
    | some n =>
      if Int32.minValue.toInt ≤ n.toInt ∧ n.toInt ≤ Int32.maxValue.toInt then
        inPool (Pool.intern (.integer n.toInt32))
      else failSyntax (.notAnInt n.toInt)
    | none =>
      match floatLiteral? word.toList with
      | some bits => inPool (Pool.intern (.float bits))
      | none => classConstant word

def nextWideConstant : AssemblyM Pool.Index := do
  let word ← nextWord "long or double constant"
  match readInteger? (dropSuffix ['L', 'l'] word.toList) with
  | some n => inPool (Pool.intern (.long n))
  | none =>
    match doubleLiteral? word.toList with
    | some bits => inPool (Pool.intern (.double bits))
    | none => failSyntax (.foundWord "long or double" word)

def nextByte (what : String) : AssemblyM UInt8 :=
  return (Int8.ofInt (← nextInteger what (-128) 127)).toUInt8

def increment : AssemblyM Unit := do
  let slot ← nextSlot
  let delta ← nextInteger "increment" (-32768) 32767
  if slot ≤ 255 ∧ -128 ≤ delta ∧ delta ≤ 127 then
    emit fun buffer =>
      ((buffer.addOpcode Opcode.iinc).addByte (UInt8.ofNat slot)).addByte (Int8.ofInt delta).toUInt8
  else if slot ≤ 65535 then
    emit fun buffer =>
      (((buffer.addByte Opcode.wide).addOpcode Opcode.iinc).addU16 (UInt16.ofNat slot)).addU16
        (Int16.ofInt delta).toUInt16
  else
    fail (.encoding (.tooManyLocals slot))
  emit (·.reserveLocals (slot + 1))

/-- Branch to a label. A subroutine takes its return address off the stack again. -/
def branch (opcode : Opcode) : AssemblyM Unit := do
  let label ← nextWord "label"
  let origin := (← get).buffer.pc
  emit (·.addOpcode opcode)
  addDisplacement label origin opcode.isWideBranch
  reachLabel label
  if opcode = Opcode.jsr ∨ opcode = Opcode.jsrW then emit (·.grow (-1))

def wordsToDefault (words : List String) : List Token → Except SyntaxFault (List String × List Token)
  | [] => .error (.missing "label or 'default'")
  | .quoted text :: _ => .error (.foundQuoted "label or 'default'" text)
  | .word word :: rest =>
    if word = "default" then .ok (words.reverse, .word word :: rest)
    else wordsToDefault (word :: words) rest

def caseOf? (word : String) : Option (Int32 × String) := do
  let (key, label) ← splitFirst? ':' word.toList
  let key ← readInteger? key
  if Int32.minValue.toInt ≤ key.toInt ∧ key.toInt ≤ Int32.maxValue.toInt then
    some (key.toInt32, String.ofList label)
  else none

def casesToDefault (cases : List (Int32 × String)) :
    List Token → Except SyntaxFault (List (Int32 × String) × List Token)
  | [] => .error (.missing "key:label or 'default'")
  | .quoted text :: _ => .error (.foundQuoted "key:label or 'default'" text)
  | .word word :: rest =>
    if word = "default" then .ok (cases.reverse, .word word :: rest)
    else
      match caseOf? word with
      | some pair => casesToDefault (pair :: cases) rest
      | none => .error (.foundWord "key:label" word)

def useOperands {α : Type} (read : List Token → Except SyntaxFault (α × List Token)) :
    AssemblyM α := do
  match read (← get).operands with
  | .ok (value, operands) =>
    modify fun state => { state with operands }
    return value
  | .error fault => failSyntax fault

def nextDefault : AssemblyM String := do
  keyword "default"
  nextWord "default label"

def switchTarget (origin : Nat) (label : String) : AssemblyM Unit := do
  addDisplacement label origin true
  reachLabel label

/-- The opcode, the padding and the default of a switch; the offset of the switch is returned. -/
def switchHeader (opcode : Opcode) (default : String) : AssemblyM Nat := do
  let origin := (← get).buffer.pc
  emit fun buffer =>
    (buffer.addOpcode opcode).addBytes (List.replicate (Code.switchPadding origin) 0)
  switchTarget origin default
  return origin

def tableSwitch : AssemblyM Unit := do
  let low ← nextInteger "low key" Int32.minValue.toInt Int32.maxValue.toInt
  let labels ← useOperands (wordsToDefault [])
  let default ← nextDefault
  let high := low + labels.length - 1
  if labels.isEmpty then failSyntax .noTableLabel
  else if Int32.maxValue.toInt < high then failSyntax .tooManyTableLabels
  else
    let origin ← switchHeader Opcode.tableswitch default
    emit fun buffer => (buffer.addI32 (Int32.ofInt low)).addI32 (Int32.ofInt high)
    labels.forM (switchTarget origin)

def duplicateKey? : List (Int32 × String) → Option Int32
  | first :: second :: rest =>
    if first.1 = second.1 then some first.1 else duplicateKey? (second :: rest)
  | _ => none

def lookupSwitch : AssemblyM Unit := do
  let cases ← useOperands (casesToDefault [])
  let default ← nextDefault
  let cases := cases.mergeSort fun left right => left.1 ≤ right.1
  match duplicateKey? cases with
  | some key => failSyntax (.duplicateKey key)
  | none =>
    let origin ← switchHeader Opcode.lookupswitch default
    emit (·.addI32 (Int32.ofNat cases.length))
    cases.forM fun (key, label) => do
      emit (·.addI32 key)
      switchTarget origin label

def fieldGrowth (opcode : Opcode) (width : Nat) : Int :=
  if opcode = Opcode.getstatic then width
  else if opcode = Opcode.putstatic then -width
  else if opcode = Opcode.getfield then width - 1
  else -width - 1

def fieldAccess (opcode : Opcode) : AssemblyM Unit := do
  let field ← nextMember "field reference"
  match FieldType.parse field.descriptor with
  | .error _ => fail (.badType field.descriptor)
  | .ok type =>
    let index ← inPool (Pool.internField field.owner field.name field.descriptor)
    emit fun buffer => (buffer.addIndexed opcode index).grow (fieldGrowth opcode type.width)

/-- Call a method. A call through an interface holds the number of argument slots. -/
def call (opcode : Opcode) : AssemblyM Unit := do
  let method ← nextMember "method reference"
  match MethodType.parse method.descriptor with
  | .error _ => fail (.badType method.descriptor)
  | .ok type =>
    let isInterface := opcode = Opcode.invokeinterface
    let index ← inPool
      (Pool.internMethod method.owner method.name method.descriptor isInterface)
    emit (·.addIndexed opcode index)
    if isInterface then
      let slots := type.parameterSlots true
      if 255 < slots then failSyntax (.tooManyArguments method.name)
      else emit fun buffer => (buffer.addByte (UInt8.ofNat slots)).addByte 0
    emit (·.grow (type.stackEffect (opcode ≠ Opcode.invokestatic)))

def elementCode? : String → Option UInt8
  | "boolean" => some 4
  | "char" => some 5
  | "float" => some 6
  | "double" => some 7
  | "byte" => some 8
  | "short" => some 9
  | "int" => some 10
  | "long" => some 11
  | _ => none

def newArray : AssemblyM Unit := do
  let element ← nextWord "primitive type"
  match elementCode? element with
  | some code => emit fun buffer => (buffer.addOpcode Opcode.newarray).addByte code
  | none => fail (.badType element)

def newArrays : AssemblyM Unit := do
  let index ← classConstant (← nextWord "array class")
  let dimensions ← nextInteger "dimensions" 0 255
  if dimensions = 0 then failSyntax .noDimension
  else
    emit fun buffer =>
      ((buffer.addIndexed Opcode.multianewarray index).addByte (UInt8.ofNat dimensions.toNat)).grow
        (1 - dimensions)

def kindFrom (first opcode : Opcode) : ValueKind :=
  match (opcode - first).toNat with
  | 0 => .int
  | 1 => .long
  | 2 => .float
  | 3 => .double
  | _ => .reference

def operation (opcode : Opcode) : AssemblyM Unit := do
  if opcode = Opcode.bipush then
    let value ← nextByte "byte"
    emit fun buffer => (buffer.addOpcode opcode).addByte value
  else if opcode = Opcode.sipush then
    let value ← nextInteger "short" (-32768) 32767
    emit fun buffer => (buffer.addOpcode opcode).addU16 (Int16.ofInt value).toUInt16
  else if opcode = Opcode.ldc ∨ opcode = Opcode.ldcW then
    let index ← nextConstant
    emit (·.addLdc index)
  else if opcode = Opcode.ldc2W then
    let index ← nextWideConstant
    emit (·.addLdc2 index)
  else if Opcode.iload ≤ opcode ∧ opcode ≤ Opcode.aload then
    let slot ← nextSlot
    emitChecked (·.addLoad slot (kindFrom Opcode.iload opcode))
  else if Opcode.istore ≤ opcode ∧ opcode ≤ Opcode.astore then
    let slot ← nextSlot
    emitChecked (·.addStore slot (kindFrom Opcode.istore opcode))
  else if opcode = Opcode.ret then
    let slot ← nextSlot
    emitChecked (·.addRet slot)
  else if opcode = Opcode.iinc then increment
  else if opcode.isShortBranch || opcode.isWideBranch then branch opcode
  else if opcode = Opcode.tableswitch then tableSwitch
  else if opcode = Opcode.lookupswitch then lookupSwitch
  else if Opcode.getstatic ≤ opcode ∧ opcode ≤ Opcode.putfield then fieldAccess opcode
  else if Opcode.invokevirtual ≤ opcode ∧ opcode ≤ Opcode.invokeinterface then call opcode
  else if opcode = Opcode.invokedynamic then failSyntax .dynamicCall
  else if opcode = Opcode.new ∨ opcode = Opcode.anewarray ∨ opcode = Opcode.checkcast ∨
      opcode = Opcode.instanceof then
    let index ← classConstant (← nextWord "class")
    emit (·.addIndexed opcode index)
  else if opcode = Opcode.newarray then newArray
  else if opcode = Opcode.multianewarray then newArrays
  else if opcode = Opcode.wide then failSyntax .explicitWide
  else emit (·.addOpcode opcode)
  if opcode.endsFlow then modify fun state => { state with reachable := false }

end ClassSplice.Assembler
