import ClassSplice.Assembler.Instruction

/-!
Assembling listings. A statement is any number of labels in front of an instruction, which is an
opcode spelled by its mnemonic or one of a few instructions that stand for others: `load` and
`store` of a variable, `iconst`, `local` and `catch`.

The stack depth is followed instruction by instruction. Behind a jump it is unknown up to the next
label, which takes up the depth of the first branch to it, or one at an exception handler.
-/

namespace ClassSplice.Assembler

open Code (Buffer Opcode)
open Descriptor (ValueKind)

def moveVariable (move : Buffer → Nat → ValueKind → Except Error Buffer) : AssemblyM Unit := do
  let name ← nextWord "variable"
  match (← get).scope.find? name with
  | none => fail (.unknownVariable name)
  | some var => emitChecked fun buffer => move buffer var.slot var.type.kind

def pushInteger : AssemblyM Unit := do
  let value ← nextInteger "int constant" Int32.minValue.toInt Int32.maxValue.toInt
  let buffer ← inPool ((← get).buffer.addInteger (Int32.ofInt value))
  modify fun state => { state with buffer }

def declareLocal : AssemblyM Unit := do
  let name ← nextWord "variable name"
  if !isName name.toList then failSyntax (.badVariableName name)
  else
    let type ← typeOf (← nextWord "variable type")
    let state ← get
    let (_, scope, buffer) ← encoded (state.scope.declare state.buffer name type)
    set { state with scope, buffer }

def declareHandler : AssemblyM Unit := do
  let caught ← nextWord "exception class"
  let catchType ← if caught = "any" then pure 0 else classConstant caught
  keyword "from"
  let start ← nextWord "label"
  keyword "to"
  let stop ← nextWord "label"
  keyword "using"
  let target ← nextWord "label"
  expectDepth target 1
  modify fun state =>
    let handler := { line := state.line, start, stop, target, catchType }
    { state with handlers := state.handlers.push handler }

/-- Assemble the instruction that a word spells. Only opcodes are refused when they leave the stack
depth below zero. -/
def instruction (mnemonic : String) : AssemblyM Unit := do
  match mnemonic with
  | "load" => moveVariable Buffer.addLoad
  | "store" => moveVariable Buffer.addStore
  | "iconst" => pushInteger
  | "local" => declareLocal
  | "catch" => declareHandler
  | _ =>
    match Opcode.ofMnemonic? mnemonic with
    | none => fail (.unknownInstruction mnemonic)
    | some opcode =>
      operation opcode
      if (← get).buffer.depth < 0 then fail .stackUnderflow

def placeLabels : List Token → AssemblyM (List Token)
  | .word word :: rest => do
    match placedLabel? word with
    | some label =>
      placeLabel label
      placeLabels rest
    | none => return .word word :: rest
  | tokens => return tokens

def statement (source : Statement) : AssemblyM Unit := do
  modify fun state => { state with line := source.line }
  match ← placeLabels source.tokens with
  | [] => return
  | .quoted text :: _ => failSyntax (.foundQuoted "an instruction" text)
  | .word mnemonic :: operands =>
    modify fun state => { state with operands }
    instruction mnemonic
    finishOperands

def placedAt (name : String) : AssemblyM Nat := do
  match ((← get).label name).pos with
  | some pos => return pos
  | none => fail (.undefinedLabel name)

def patch (fixup : Fixup) : AssemblyM Unit := do
  modify fun state => { state with line := fixup.line }
  let target ← placedAt fixup.label
  let distance : Int := target - fixup.origin
  if fixup.isWide then
    emit (·.overwrite fixup.pos (Binary.Writer.i32 (Int32.ofInt distance)))
  else if -32768 ≤ distance ∧ distance ≤ 32767 then
    emit (·.overwrite fixup.pos (Binary.Writer.i16 (Int16.ofInt distance)))
  else
    failSyntax (.outOfRange fixup.label)

def addHandler (handler : PendingHandler) : AssemblyM Unit := do
  modify fun state => { state with line := handler.line }
  let start ← placedAt handler.start
  let stop ← placedAt handler.stop
  let target ← placedAt handler.target
  emitChecked (·.addHandler start stop target handler.catchType)

def assembleAll (statements : List Statement) : AssemblyM Unit := do
  statements.forM statement
  (← get).fixups.forM patch
  (← get).handlers.forM addHandler

end Assembler

open Code (Buffer) in
/-- Assemble a listing behind the code in a buffer, with the variables of a scope. -/
def assemble (source : String) (scope : Assembler.Scope) (buffer : Buffer) :
    ExceptT Assembler.Fault (StateM Pool) (Assembler.Scope × Buffer) := do
  let statements ← match Assembler.statements source with
    | .ok statements => pure statements
    | .error fault => throw fault
  let (_, state) ← (Assembler.assembleAll statements).run { scope, buffer }
  return (state.scope, state.buffer)

end ClassSplice
