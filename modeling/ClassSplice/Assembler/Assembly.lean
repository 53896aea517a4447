import ClassSplice.Assembler.Number
import ClassSplice.Assembler.Scope
import ClassSplice.Assembler.Statement
import ClassSplice.Text.Letter

namespace ClassSplice.Assembler

open Code (Buffer Opcode)

structure Label where
  pos : Option Nat := none
  /-- Stack depth at the label, once a branch to it or a way into it is known. -/
  depth : Option Int := none
  deriving DecidableEq, Repr

structure Fixup where
  line : Nat
  label : String
  origin : Nat
  pos : Nat
  isWide : Bool
  deriving DecidableEq, Repr

structure PendingHandler where
  line : Nat
  start : String
  stop : String
  target : String
  catchType : Pool.Index
  deriving DecidableEq, Repr

structure Assembly where
  scope : Scope
  buffer : Buffer
  labels : List (String × Label) := []
  fixups : Array Fixup := #[]
  handlers : Array PendingHandler := #[]
  reachable : Bool := true
  line : Nat := 1
  operands : List Token := []

abbrev AssemblyM := StateT Assembly (ExceptT Fault (StateM Pool))

def fail {α : Type} (cause : Cause) : AssemblyM α := do
  throw ⟨(← get).line, cause⟩

def failSyntax {α : Type} (fault : SyntaxFault) : AssemblyM α :=
  fail (.badSyntax fault)

def encoded {α : Type} : Except Error α → AssemblyM α
  | .ok value => pure value
  | .error error => fail (.encoding error)

def inPool {α : Type} (change : PoolM α) : AssemblyM α := fun state pool =>
  match change pool with
  | (.ok value, pool) => (.ok (value, state), pool)
  | (.error error, pool) => (.error ⟨state.line, .encoding error⟩, pool)

def emit (change : Buffer → Buffer) : AssemblyM Unit :=
  modify fun state => { state with buffer := change state.buffer }

def emitChecked (change : Buffer → Except Error Buffer) : AssemblyM Unit := do
  let buffer ← encoded (change (← get).buffer)
  modify fun state => { state with buffer }

def nextOperand (what : String) : AssemblyM Token := do
  match (← get).operands with
  | [] => failSyntax (.missing what)
  | token :: operands =>
    modify fun state => { state with operands }
    return token

def nextWord (what : String) : AssemblyM String := do
  match ← nextOperand what with
  | .word word => return word
  | .quoted text => failSyntax (.foundQuoted what text)

def keyword (expected : String) : AssemblyM Unit := do
  let word ← nextWord expected
  if word ≠ expected then failSyntax (.foundOtherKeyword expected word)

def nextInteger (what : String) (low high : Int) : AssemblyM Int := do
  let word ← nextWord what
  match readInteger? word.toList with
  | some n =>
    if low ≤ n.toInt ∧ n.toInt ≤ high then return n.toInt
    else failSyntax (.foundWord what word)
  | none => failSyntax (.foundWord what word)

def finishOperands : AssemblyM Unit := do
  match (← get).operands with
  | [] => return
  | token :: _ => failSyntax (.unexpectedOperand token)

def isNameStart (c : Char) : Bool :=
  Text.isLetter c || c == '_' || c == '$'

def isNamePart (c : Char) : Bool :=
  Text.isLetterOrNumeral c || c == '_' || c == '$'

def isName : List Char → Bool
  | [] => false
  | c :: rest => isNameStart c && rest.all isNamePart

def placedLabel? (word : String) : Option String :=
  match word.toList.reverse with
  | ':' :: name => if isName name.reverse then some (String.ofList name.reverse) else none
  | _ => none

def Assembly.label (state : Assembly) (name : String) : Label :=
  (state.labels.lookup name).getD {}

def Assembly.setLabel (state : Assembly) (name : String) (label : Label) : Assembly :=
  { state with labels := (name, label) :: state.labels }

def expectDepth (name : String) (depth : Int) : AssemblyM Unit :=
  modify fun state =>
    let label := state.label name
    state.setLabel name { label with depth := some (label.depth.getD depth) }

/-- Place a label behind the last instruction. Where the code before it does not run into it, the
depth known for the label is taken up. -/
def placeLabel (name : String) : AssemblyM Unit := do
  let state ← get
  let label := state.label name
  if label.pos.isSome then fail (.duplicateLabel name)
  else
    let buffer := match label.depth with
      | some depth => if state.reachable then state.buffer else state.buffer.setDepth depth
      | none => state.buffer
    let placed := { pos := some state.buffer.pc
                    depth := some (label.depth.getD state.buffer.depth) }
    set { state.setLabel name placed with buffer, reachable := true }

def addDisplacement (label : String) (origin : Nat) (isWide : Bool) : AssemblyM Unit :=
  modify fun state =>
    let fixup := { line := state.line, label, origin, pos := state.buffer.pc, isWide }
    let buffer := if isWide then state.buffer.addI32 0 else state.buffer.addU16 0
    { state with buffer, fixups := state.fixups.push fixup }

def reachLabel (label : String) : AssemblyM Unit := do
  expectDepth label (← get).buffer.depth

end ClassSplice.Assembler
