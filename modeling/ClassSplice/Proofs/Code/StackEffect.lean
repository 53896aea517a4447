import ClassSplice.Code.Instruction
import ClassSplice.Descriptor.MethodType
import ClassSplice.Proofs.Code.Reach
import ClassSplice.Proofs.Pool.Interning

namespace ClassSplice

open Binary (BigEndian.value)
open Descriptor (FieldType MethodType)

def Pool.descriptor? (pool : Pool) (index : Pool.Index) : Option String := do
  let member ← match ← (pool.get index).toOption with
    | .fieldRef _ member | .methodRef _ member _ | .invokeDynamic _ member => some member
    | _ => none
  let descriptor ← match ← (pool.get member).toOption with
    | .nameAndType _ descriptor => some descriptor
    | _ => none
  (pool.textAt descriptor).toOption

namespace Pool

variable {pool : Pool} {index : Index} {constant : Constant} {owner name descriptor : String}

theorem textAt_of_at (stands : pool.At index (.text descriptor)) :
    pool.textAt index = .ok descriptor := by
  have got : pool.get index = .ok (.text descriptor) := stands
  rw [textAt, got]
  rfl

theorem toOption_eq_some {ε α : Type} {result : Except ε α} {value : α} :
    result.toOption = some value ↔ result = .ok value := by
  cases result <;> simp [Except.toOption]

inductive Refers : Constant → Index → Prop
  | field {owner member : Index} : Refers (.fieldRef owner member) member
  | method {owner member : Index} {isInterface : Bool} :
      Refers (.methodRef owner member isInterface) member
  | call {bootstrap member : Index} : Refers (.invokeDynamic bootstrap member) member

theorem descriptor?_eq_some :
    pool.descriptor? index = some descriptor ↔ ∃ constant member name text,
      pool.get index = .ok constant ∧ Refers constant member ∧
        pool.get member = .ok (.nameAndType name text) ∧ pool.textAt text = .ok descriptor := by
  constructor
  · intro known
    simp only [descriptor?, Option.bind_eq_bind, Option.bind_some] at known
    obtain ⟨constant, got, known⟩ := Option.bind_eq_some_iff.1 known
    cases constant with
    | fieldRef | methodRef | invokeDynamic =>
        dsimp only at known
        obtain ⟨named, got', known⟩ := Option.bind_eq_some_iff.1 known
        cases named with
        | nameAndType =>
            exact ⟨_, _, _, _, toOption_eq_some.1 got, by constructor, toOption_eq_some.1 got',
              toOption_eq_some.1 known⟩
        | _ => cases known
    | _ => cases known
  · rintro ⟨constant, member, name, text, got, refers, named, described⟩
    cases refers <;> simp [descriptor?, got, named, described, Except.toOption]

theorem descriptor?_field (stands : pool.At index constant)
    (denotes : Denotes pool.At constant (.field owner name descriptor)) :
    pool.descriptor? index = some descriptor := by
  cases denotes with
  | @field _ _ _ _ _ _ _ _ _ atSecond named =>
      cases named with
      | nameAndType _ described =>
          exact descriptor?_eq_some.2 ⟨_, _, _, _, stands, .field, atSecond, textAt_of_at described⟩

theorem descriptor?_method {isInterface : Bool} (stands : pool.At index constant)
    (denotes : Denotes pool.At constant (.method owner name descriptor isInterface)) :
    pool.descriptor? index = some descriptor := by
  cases denotes with
  | @method _ _ _ _ _ _ _ _ _ _ atSecond named =>
      cases named with
      | nameAndType _ described =>
          exact descriptor?_eq_some.2 ⟨_, _, _, _, stands, .method, atSecond, textAt_of_at described⟩

end Pool

namespace Code

def fieldEffect (opcode : Opcode) (type : FieldType) : Int :=
  let moved : Int := if opcode = Opcode.getstatic ∨ opcode = Opcode.getfield then type.width
    else -type.width
  if opcode = Opcode.getfield ∨ opcode = Opcode.putfield then moved - 1 else moved

def callEffect (opcode : Opcode) (type : MethodType) : Int :=
  let returned : Nat := type.returns.elim 0 FieldType.width
  let arguments : Nat := (type.parameters.map FieldType.width).sum
  let receiver : Nat :=
    if opcode = Opcode.invokestatic ∨ opcode = Opcode.invokedynamic then 0 else 1
  returned - arguments - receiver

def constantEffect? (pool : Pool) (opcode : Opcode) (index : Pool.Index) (rest : List UInt8) :
    Option Int :=
  if opcode = Opcode.multianewarray then rest.head?.map fun dimensions => 1 - (dimensions.toNat : Int)
  else
    match pool.descriptor? index with
    | none => none
    | some descriptor =>
      if opcode ≤ Opcode.putfield then
        (FieldType.parse descriptor).toOption.map (fieldEffect opcode)
      else (MethodType.parse descriptor).toOption.map (callEffect opcode)

def plainEffect? (pool : Pool) : List UInt8 → Option Int
  | [] => none
  | opcode :: operands =>
    if opcode = Opcode.wide then operands.head?.map Opcode.growth
    else if Opcode.hasVariableGrowth opcode then
      match operands with
      | high :: low :: rest =>
        constantEffect? pool opcode (UInt16.ofNat (BigEndian.value [high, low])) rest
      | _ => none
    else some (Opcode.growth opcode)

def Instruction.stackEffect? (pool : Pool) : Instruction → Option Int
  | plain bytes => plainEffect? pool bytes
  | branch opcode _ | wideBranch opcode _ => some opcode.growth
  | tableSwitch .. => some (Opcode.growth Opcode.tableswitch)
  | lookupSwitch .. => some (Opcode.growth Opcode.lookupswitch)

def Instruction.returnWidth : Instruction → Int
  | branch opcode _ | wideBranch opcode _ =>
    if opcode = Opcode.jsr ∨ opcode = Opcode.jsrW then 1 else 0
  | _ => 0

section Effects

variable {pool : Pool} {opcode : Opcode} {index : Pool.Index} {rest : List UInt8}
  {descriptor : String}

theorem plainEffect?_steady {operands : List UInt8} (narrow : opcode ≠ Opcode.wide)
    (steady : opcode.hasVariableGrowth = false) :
    plainEffect? pool (opcode :: operands) = some opcode.growth := by
  simp [plainEffect?, narrow, steady]

theorem plainEffect?_indexed (narrow : opcode ≠ Opcode.wide)
    (varies : opcode.hasVariableGrowth = true) :
    plainEffect? pool (opcode :: (Binary.Writer.u16 index ++ rest)) =
      constantEffect? pool opcode index rest := by
  have denotes := Binary.BigEndian.value_bytes 2 index.toNat
  rw [Nat.mod_eq_of_lt (show index.toNat < 256 ^ 2 from index.toNat_lt)] at denotes
  simp only [plainEffect?, if_neg narrow, varies, if_true, Binary.Writer.u16]
  simp only [Binary.BigEndian.bytes, List.nil_append, List.singleton_append] at denotes ⊢
  simp only [List.cons_append, List.nil_append, denotes, UInt16.ofNat_toNat]

theorem constantEffect?_field {type : FieldType} (accesses : opcode ≤ Opcode.putfield)
    (known : pool.descriptor? index = some descriptor)
    (parsed : FieldType.parse descriptor = .ok type) :
    constantEffect? pool opcode index rest = some (fieldEffect opcode type) := by
  have other : opcode ≠ Opcode.multianewarray := by
    rintro rfl
    exact absurd accesses (by decide)
  simp [constantEffect?, other, known, accesses, parsed, Except.toOption]

theorem constantEffect?_call {type : MethodType} (calls : ¬ opcode ≤ Opcode.putfield)
    (other : opcode ≠ Opcode.multianewarray) (known : pool.descriptor? index = some descriptor)
    (parsed : MethodType.parse descriptor = .ok type) :
    constantEffect? pool opcode index rest = some (callEffect opcode type) := by
  simp only [constantEffect?, if_neg other, known, if_neg calls, parsed, Except.toOption,
    Option.map_some]

theorem parameterSlots_eq (type : MethodType) (hasReceiver : Bool) :
    type.parameterSlots hasReceiver =
      (type.parameters.map FieldType.width).sum + if hasReceiver then 1 else 0 := by
  have folded (start : Nat) : type.parameters.foldl (fun slots parameter => slots + parameter.width)
      start = (type.parameters.map FieldType.width).sum + start := by
    induction type.parameters generalizing start with
    | nil => simp
    | cons parameter parameters ih =>
        rw [List.foldl_cons, ih, List.map_cons, List.sum_cons]
        omega
  exact folded _

end Effects

/-- Offsets that control may come to from the roots, along instructions in a row. -/
inductive Comes (entries : List (Nat × Located)) (roots : List Nat) : Nat → Prop
  | root {pos : Nat} (member : pos ∈ roots) : Comes entries roots pos
  | next {pos next : Nat} {located : Located} (comes : Comes entries roots pos)
      (member : (pos, located) ∈ entries) (follows : (next : Int) ∈ located.successors pos) :
      Comes entries roots next

/-- Each instruction that control may come to has one depth, on whichever way it comes: a level at the
start, and a single value where an exception is caught. -/
structure Levels (pool : Pool) (entries : List (Nat × Located)) (start : Nat) (level : Int)
    (catches : List Nat) (depth : Nat → Int) : Prop where
  entrance : depth start = level
  caught : ∀ pos ∈ catches, depth pos = 1
  onward : ∀ {pos located effect}, Comes entries (start :: catches) pos → (pos, located) ∈ entries →
    located.instruction.stackEffect? pool = some effect → located.instruction.fallsThrough = true →
    pos + located.length ∈ entries.map Prod.fst →
    depth (pos + located.length) = depth pos + effect - located.instruction.returnWidth
  jump : ∀ {pos located effect} {target : Nat}, Comes entries (start :: catches) pos →
    (pos, located) ∈ entries → located.instruction.stackEffect? pool = some effect →
    (target : Int) ∈ located.instruction.targets → target ∈ entries.map Prod.fst →
    depth target = depth pos + effect

end Code
end ClassSplice
