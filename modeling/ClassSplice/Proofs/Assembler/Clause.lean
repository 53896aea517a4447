import ClassSplice.Assembler.Basic
import ClassSplice.Proofs.Machine.Access

namespace ClassSplice.Assembler

open Code (Instruction Opcode)

def splitLabels : List Token → List String × List Token
  | .word word :: rest =>
    match placedLabel? word with
    | some label => (label :: (splitLabels rest).1, (splitLabels rest).2)
    | none => ([], .word word :: rest)
  | tokens => ([], tokens)

inductive Clause where
  | silent
  | handler (start stop target : String)
  | plain (mnemonic : String)
  | branch (opcode : Opcode) (label : String)
  | tableSwitch (low : Int) (labels : List String) (default : String)
  | lookupSwitch (cases : List (Int32 × String)) (default : String)
  deriving DecidableEq, Repr

namespace Clause

def ofHandler : List Token → Clause
  | _ :: _ :: .word start :: _ :: .word stop :: _ :: .word target :: _ => handler start stop target
  | _ => silent

def ofBranch (opcode : Opcode) : List Token → Clause
  | .word label :: _ => branch opcode label
  | _ => silent

def ofTableSwitch : List Token → Clause
  | .word low :: rest =>
    match readInteger? low.toList, wordsToDefault [] rest with
    | some low, .ok (labels, _ :: .word default :: _) => tableSwitch low.toInt labels default
    | _, _ => silent
  | _ => silent

def ofLookupSwitch (operands : List Token) : Clause :=
  match casesToDefault [] operands with
  | .ok (cases, _ :: .word default :: _) => lookupSwitch cases default
  | _ => silent

def ofOpcode (mnemonic : String) (opcode : Opcode) (operands : List Token) : Clause :=
  if opcode.isShortBranch || opcode.isWideBranch then ofBranch opcode operands
  else if opcode = Opcode.tableswitch then ofTableSwitch operands
  else if opcode = Opcode.lookupswitch then ofLookupSwitch operands
  else plain mnemonic

def ofTokens : List Token → Clause
  | .word mnemonic :: operands =>
    match mnemonic with
    | "load" | "store" | "iconst" => plain mnemonic
    | "local" => silent
    | "catch" => ofHandler operands
    | _ =>
      match Opcode.ofMnemonic? mnemonic with
      | some opcode => ofOpcode mnemonic opcode operands
      | none => silent
  | _ => silent

def isInstruction : Clause → Bool
  | silent | handler .. => false
  | plain _ | branch .. | tableSwitch .. | lookupSwitch .. => true

def endsFlow : Clause → Bool
  | plain mnemonic => (Opcode.ofMnemonic? mnemonic).any Opcode.endsFlow
  | branch opcode _ => opcode.endsFlow
  | tableSwitch .. | lookupSwitch .. => true
  | silent | handler .. => false

def labels : Clause → List String
  | branch _ label => [label]
  | tableSwitch _ labels default => default :: labels
  | lookupSwitch cases default => default :: cases.map Prod.snd
  | silent | handler .. | plain _ => []

def names : Clause → List String
  | handler start stop target => [start, stop, target]
  | clause => clause.labels

def handler? : Clause → Option (String × String × String)
  | handler start stop target => some (start, stop, target)
  | _ => none

end Clause

namespace Statement

def labels (source : Statement) : List String :=
  (splitLabels source.tokens).1

def clause (source : Statement) : Clause :=
  .ofTokens (splitLabels source.tokens).2

def isInstruction (source : Statement) : Bool :=
  source.clause.isInstruction

end Statement

/-- The opcode of an instruction that names no place, in whatever form its operand is spelled. -/
def stem? (bytes : List UInt8) : Option Opcode :=
  match Machine.accessed? bytes with
  | some (opcode, _) => some opcode
  | none => bytes.head?.map fun opcode => if opcode = Opcode.ldcW then Opcode.ldc else opcode

def pushers : List Opcode :=
  (List.range 7).map (fun n => Opcode.aconstNull + 1 + UInt8.ofNat n) ++
    [Opcode.bipush, Opcode.sipush, Opcode.ldc]

def Spells (mnemonic : String) (bytes : List UInt8) : Prop :=
  match mnemonic with
  | "load" => ∃ kind ∈ Machine.kinds, stem? bytes = some kind.loadOpcode
  | "store" => ∃ kind ∈ Machine.kinds, stem? bytes = some kind.storeOpcode
  | "iconst" => ∃ opcode ∈ pushers, stem? bytes = some opcode
  | _ => ∃ opcode, Opcode.ofMnemonic? mnemonic = some opcode ∧ stem? bytes = stem? [opcode]

theorem stem?_nil : stem? [] = none := rfl

theorem Spells.ne_nil {mnemonic : String} {bytes : List UInt8} (spells : Spells mnemonic bytes) :
    bytes ≠ [] := by
  rintro rfl
  unfold Spells at spells
  split at spells
  · obtain ⟨_, _, stem⟩ := spells
    cases stem
  · obtain ⟨_, _, stem⟩ := spells
    cases stem
  · obtain ⟨_, _, stem⟩ := spells
    cases stem
  · obtain ⟨opcode, _, stem⟩ := spells
    rw [stem?_nil, stem?] at stem
    split at stem <;> cases stem

inductive Clause.Says (place : String → Int) : Clause → Instruction → Prop
  | plain {mnemonic : String} {bytes : List UInt8} (spells : Spells mnemonic bytes) :
      Says place (.plain mnemonic) (.plain bytes)
  | branch {opcode : Opcode} {label : String} (short : opcode.isShortBranch = true) :
      Says place (.branch opcode label) (.branch opcode (place label))
  | wideBranch {opcode : Opcode} {label : String} (wide : opcode.isWideBranch = true) :
      Says place (.branch opcode label) (.wideBranch opcode (place label))
  | tableSwitch {low : Int} {labels : List String} {default : String} {first last : Int32}
      (starts : first.toInt = low) (count : last.toInt - first.toInt + 1 = labels.length) :
      Says place (.tableSwitch low labels default)
        (.tableSwitch (place default) first last (labels.map place))
  | lookupSwitch {cases : List (Int32 × String)} {default : String} {pairs : List (Int32 × Int)}
      (increasing : (pairs.map Prod.fst).Pairwise (· < ·))
      (written : pairs.Perm (cases.map fun case => (case.1, place case.2))) :
      Says place (.lookupSwitch cases default) (.lookupSwitch (place default) pairs)

end ClassSplice.Assembler
