import ClassSplice.Code.Buffer
import ClassSplice.Proofs.Code.Dispatch
import ClassSplice.Proofs.Code.Flow
import ClassSplice.Proofs.Machine.Run

/-!
A machine that runs method bodies. It passes control and keeps return addresses of subroutines
itself; what other instructions do with operands, local variables and heap is left to an
interpretation (`Meaning`), to which return addresses are opaque.
-/

namespace ClassSplice.Machine

open Code (Instruction Located Opcode)
open Descriptor (ValueKind)

inductive Word (Value Address : Type) where
  | value (value : Value)
  | address (pos : Address)

structure Frame (Slot Value Heap Address : Type) where
  stack : List (Word Value Address)
  locals : Slot → Option (Word Value Address)
  heap : Heap

section Map

variable {Slot Value Heap Address Address' : Type}

def Word.map (moved : Address → Address') : Word Value Address → Word Value Address'
  | .value held => .value held
  | .address pos => .address (moved pos)

def Frame.map (moved : Address → Address') (frame : Frame Slot Value Heap Address) :
    Frame Slot Value Heap Address' where
  stack := frame.stack.map (Word.map moved)
  locals slot := (frame.locals slot).map (Word.map moved)
  heap := frame.heap

def Frame.push (frame : Frame Slot Value Heap Address) (word : Word Value Address) :
    Frame Slot Value Heap Address :=
  { frame with stack := word :: frame.stack }

def Frame.below (size : Nat) (frame : Frame Nat Value Heap Address) :
    Frame (Fin size) Value Heap Address :=
  { frame with locals := fun slot => frame.locals slot }

def Frame.change {size : Nat} (frame : Frame Nat Value Heap Address)
    (changed : Frame (Fin size) Value Heap Address) : Frame Nat Value Heap Address :=
  { changed with
    locals := fun slot => if known : slot < size then changed.locals ⟨slot, known⟩
      else frame.locals slot }

end Map

inductive Act (size : Nat) (Value Heap Address : Type) where
  | goes (frame : Frame (Fin size) Value Heap Address)
  | raises (exception : Value) (heap : Heap)
  | stuck

def Act.map {size : Nat} {Value Heap Address Address' : Type} (moved : Address → Address') :
    Act size Value Heap Address → Act size Value Heap Address'
  | goes frame => .goes (frame.map moved)
  | raises exception heap => .raises exception heap
  | stuck => .stuck

/-- What instructions mean that do not pass control, on the stack, the slots below `size` and the
heap. -/
structure Meaning (Value Heap : Type) (size : Nat) where
  kind : Value → ValueKind
  null : Value
  act {Address : Type} (bytes : List UInt8) (frame : Frame (Fin size) Value Heap Address) :
    Act size Value Heap Address
  /-- What conditions and switches make of their operands, the topmost first. -/
  conditions : Code.Interpretation (List Value)
  thrown : Value → Heap → Value × Heap
  catches : Pool.Index → Value → Heap → Bool
  kind_null : kind null = .reference
  act_null {Address : Type} (frame : Frame (Fin size) Value Heap Address) :
    act [Opcode.aconstNull] frame = .goes (frame.push (.value null))
  act_map {Address Address' : Type} (moved : Address → Address') (bytes : List UInt8)
    (frame : Frame (Fin size) Value Heap Address) :
    act bytes (frame.map moved) = (act bytes frame).map moved

def accessed? : List UInt8 → Option (Opcode × Nat)
  | [opcode] =>
    if Opcode.iload0 ≤ opcode ∧ opcode < Opcode.iload0 + 20 then
      some (Opcode.iload + (opcode - Opcode.iload0) / 4, ((opcode - Opcode.iload0) % 4).toNat)
    else if Opcode.istore0 ≤ opcode ∧ opcode < Opcode.istore0 + 20 then
      some (Opcode.istore + (opcode - Opcode.istore0) / 4, ((opcode - Opcode.istore0) % 4).toNat)
    else none
  | [opcode, slot] => if Code.isWidenable opcode then some (opcode, slot.toNat) else none
  | [opcode, slot, _] => if opcode = Opcode.iinc then some (opcode, slot.toNat) else none
  | [first, opcode, high, low] =>
    if first = Opcode.wide ∧ Code.isWidenable opcode then
      some (opcode, Binary.BigEndian.value [high, low])
    else none
  | [first, opcode, high, low, _, _] =>
    if first = Opcode.wide ∧ opcode = Opcode.iinc then
      some (opcode, Binary.BigEndian.value [high, low])
    else none
  | _ => none

def kinds : List ValueKind :=
  [.int, .long, .float, .double, .reference]

def loaded? (opcode : Opcode) : Option ValueKind :=
  kinds.find? fun kind => kind.loadOpcode == opcode

def stored? (opcode : Opcode) : Option ValueKind :=
  kinds.find? fun kind => kind.storeOpcode == opcode

def returning : Option ValueKind → Opcode
  | none => Opcode.vreturn
  | some kind => kind.returnOpcode

def returned? (opcode : Opcode) : Option (Option ValueKind) :=
  (none :: kinds.map some).find? fun result => returning result == opcode

def operandCount (opcode : Opcode) : Nat :=
  if opcode.isConditional then if Opcode.ifeq + 6 ≤ opcode ∧ opcode ≤ Opcode.ifAcmpne then 2 else 1
  else 0

def popValues {Value Address : Type} : Nat → List (Word Value Address) →
    Option (List Value × List (Word Value Address))
  | 0, stack => some ([], stack)
  | count + 1, .value value :: stack => (popValues count stack).map (.map (value :: ·) id)
  | _ + 1, _ => none

inductive Move (Address : Type) where
  | onward
  | jump (target : Int)
  | back (pos : Address)

inductive Effect (Value Heap Address : Type) where
  | goes (move : Move Address) (frame : Frame Nat Value Heap Address)
  | raises (exception : Value) (heap : Heap)
  | returns (result : Option Value) (heap : Heap)
  | stuck

section Execute

variable {Value Heap Address : Type} {size : Nat}

namespace Meaning

variable (meaning : Meaning Value Heap size)

def wordKind : Word Value Address → ValueKind
  | .value value => meaning.kind value
  | .address _ => .reference

def ordinary (bytes : List UInt8) (frame : Frame Nat Value Heap Address) :
    Effect Value Heap Address :=
  match meaning.act bytes (frame.below size) with
  | .goes changed => .goes .onward (frame.change changed)
  | .raises exception heap => .raises exception heap
  | .stuck => .stuck

def load (kind : ValueKind) (slot : Nat) (frame : Frame Nat Value Heap Address) :
    Effect Value Heap Address :=
  match frame.locals slot with
  | some (.value value) =>
    if meaning.kind value = kind then .goes .onward (frame.push (.value value)) else .stuck
  | _ => .stuck

def store (kind : ValueKind) (slot : Nat) (frame : Frame Nat Value Heap Address) :
    Effect Value Heap Address :=
  match frame.stack with
  | word :: stack =>
    if meaning.wordKind word = kind then
      .goes .onward { frame with stack, locals := Function.update frame.locals slot (some word) }
    else .stuck
  | [] => .stuck

/-- An access to a local variable. Slots that the interpretation does not know only hold what is
moved there. -/
def access (opcode : Opcode) (slot : Nat) (bytes : List UInt8)
    (frame : Frame Nat Value Heap Address) : Effect Value Heap Address :=
  if opcode = Opcode.ret then
    match frame.locals slot with
    | some (.address pos) => .goes (.back pos) frame
    | _ => .stuck
  else if slot < size then meaning.ordinary bytes frame
  else
    match loaded? opcode, stored? opcode with
    | some kind, _ => meaning.load kind slot frame
    | none, some kind => meaning.store kind slot frame
    | none, none => .stuck

def leave (result : Option ValueKind) (frame : Frame Nat Value Heap Address) :
    Effect Value Heap Address :=
  match result, frame.stack with
  | none, _ => .returns none frame.heap
  | some kind, .value value :: _ =>
    if meaning.kind value = kind then .returns (some value) frame.heap else .stuck
  | some _, _ => .stuck

def throw (frame : Frame Nat Value Heap Address) : Effect Value Heap Address :=
  match frame.stack with
  | .value value :: _ =>
    let (exception, heap) := meaning.thrown value frame.heap
    .raises exception heap
  | _ => .stuck

def plain (bytes : List UInt8) (frame : Frame Nat Value Heap Address) : Effect Value Heap Address :=
  match accessed? bytes with
  | some (opcode, slot) => meaning.access opcode slot bytes frame
  | none =>
    match bytes with
    | [opcode] =>
      match returned? opcode with
      | some result => meaning.leave result frame
      | none => if opcode = Opcode.athrow then meaning.throw frame else meaning.ordinary bytes frame
    | _ => meaning.ordinary bytes frame

def execute (instruction : Instruction) (behind : Address) (frame : Frame Nat Value Heap Address) :
    Effect Value Heap Address :=
  match instruction with
  | .plain bytes => meaning.plain bytes frame
  | .branch opcode target =>
    match popValues (operandCount opcode) frame.stack with
    | none => .stuck
    | some (operands, stack) =>
      if opcode.isConditional && !meaning.conditions.taken opcode operands then
        .goes .onward { frame with stack }
      else if opcode = Opcode.jsr then .goes (.jump target) (frame.push (.address behind))
      else .goes (.jump target) { frame with stack }
  | .wideBranch opcode target =>
    if opcode = Opcode.jsrW then .goes (.jump target) (frame.push (.address behind))
    else .goes (.jump target) frame
  | .tableSwitch default low high targets =>
    match popValues 1 frame.stack with
    | none => .stuck
    | some (operands, stack) =>
      let key := meaning.conditions.key operands
      let target := if low ≤ key ∧ key ≤ high then
        targets.getD (key.toInt - low.toInt).toNat default else default
      .goes (.jump target) { frame with stack }
  | .lookupSwitch default cases =>
    match popValues 1 frame.stack with
    | none => .stuck
    | some (operands, stack) =>
      let target := (cases.lookup (meaning.conditions.key operands)).getD default
      .goes (.jump target) { frame with stack }

end Meaning
end Execute

structure State (Value Heap : Type) where
  pos : Nat
  frame : Frame Nat Value Heap Nat

inductive Outcome (Value Heap : Type) where
  | returned (result : Option Value) (heap : Heap)
  | uncaught (exception : Value) (heap : Heap)
  | stuck

section Step

variable {Value Heap : Type} {size : Nat}

def located? (code : Array UInt8) (pos : Nat) : Option Located :=
  match Code.instructionLength code pos with
  | .error _ => none
  | .ok length =>
    match Instruction.decode code pos length with
    | .error _ => none
    | .ok instruction => some ⟨length, instruction⟩

def Move.goal (behind : Nat) : Move Nat → Int
  | onward => behind
  | jump target => target
  | back pos => pos

def Meaning.resume (meaning : Meaning Value Heap size) (code : Code) (pos behind : Nat)
    (frame : Frame Nat Value Heap Nat) :
    Effect Value Heap Nat → Next (State Value Heap) (Outcome Value Heap)
  | .goes move frame =>
    if 0 ≤ move.goal behind then .on ⟨(move.goal behind).toNat, frame⟩ else .out .stuck
  | .raises exception heap =>
    match code.handlers.dispatch (meaning.catches · exception heap) pos with
    | some target => .on ⟨target, { frame with stack := [.value exception], heap }⟩
    | none => .out (.uncaught exception heap)
  | .returns result heap => .out (.returned result heap)
  | .stuck => .out .stuck

def Meaning.step (meaning : Meaning Value Heap size) (code : Code) (state : State Value Heap) :
    Next (State Value Heap) (Outcome Value Heap) :=
  match located? code.bytes state.pos with
  | none => .out .stuck
  | some located =>
    let behind := state.pos + located.length
    meaning.resume code state.pos behind state.frame
      (meaning.execute located.instruction behind state.frame)

def Meaning.slots (meaning : Meaning Value Heap size) (arguments : List Value) :
    List (Option Value) :=
  arguments.flatMap fun value => some value :: List.replicate ((meaning.kind value).slots - 1) none

def Meaning.entered {Address : Type} (meaning : Meaning Value Heap size) (arguments : List Value)
    (heap : Heap) : Frame Nat Value Heap Address where
  stack := []
  locals slot := ((meaning.slots arguments)[slot]?).join.map .value
  heap := heap

def Meaning.start (meaning : Meaning Value Heap size) (arguments : List Value) (heap : Heap) :
    State Value Heap :=
  ⟨0, meaning.entered arguments heap⟩

variable {meaning : Meaning Value Heap size} {code : Code} {pos : Nat} {located : Located}
  {frame frame' : Frame Nat Value Heap Nat}

theorem located?_eq_some {bytes : Array UInt8} :
    located? bytes pos = some located ↔ Code.Reads bytes pos located := by
  obtain ⟨length, instruction⟩ := located
  unfold located? Code.Reads
  dsimp only
  cases Code.instructionLength bytes pos with
  | error error => exact ⟨nofun, nofun⟩
  | ok found =>
      rw [Except.ok.injEq]
      dsimp only
      cases decoded : Instruction.decode bytes pos found with
      | error error =>
          refine ⟨nofun, ?_⟩
          rintro ⟨rfl, absurd⟩
          cases decoded.symm.trans absurd
      | ok other =>
          simp only [Option.some.injEq, Located.mk.injEq]
          constructor
          · rintro ⟨rfl, rfl⟩
            exact ⟨rfl, decoded⟩
          · rintro ⟨rfl, same⟩
            exact ⟨rfl, Except.ok.inj (decoded.symm.trans same)⟩

theorem step_of_reads (reads : Code.Reads code.bytes pos located) :
    meaning.step code ⟨pos, frame⟩ = meaning.resume code pos (pos + located.length) frame
      (meaning.execute located.instruction (pos + located.length) frame) := by
  unfold Meaning.step
  dsimp only
  rw [located?_eq_some.2 reads]

theorem resume_goes {move : Move Nat} {behind goal : Nat} (leads : move.goal behind = goal) :
    meaning.resume code pos behind frame (.goes move frame') = .on ⟨goal, frame'⟩ := by
  rw [Meaning.resume, leads, if_pos (Int.natCast_nonneg _)]
  rfl

theorem step_goes {move : Move Nat} {goal : Nat} (reads : Code.Reads code.bytes pos located)
    (goes : meaning.execute located.instruction (pos + located.length) frame = .goes move frame')
    (leads : move.goal (pos + located.length) = goal) :
    meaning.step code ⟨pos, frame⟩ = .on ⟨goal, frame'⟩ := by
  rw [step_of_reads reads, goes, resume_goes leads]

theorem step_stuck (reads : Code.Reads code.bytes pos located)
    (stuck : meaning.execute located.instruction (pos + located.length) frame = .stuck) :
    meaning.step code ⟨pos, frame⟩ = .out .stuck := by
  rw [step_of_reads reads, stuck]
  rfl

end Step

end ClassSplice.Machine
