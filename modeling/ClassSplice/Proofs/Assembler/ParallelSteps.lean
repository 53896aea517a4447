import ClassSplice.Proofs.Assembler.Growth
import ClassSplice.Proofs.Assembler.Parallel
import ClassSplice.Proofs.Assembler.Underflow

/-!
Every step of assembly is parallel to itself, and so two runs over the same statements end alike
(`agree_assembleAll`). Two steps ask for more: a switch is padded, so both runs have to stand at the
same distance from a multiple of four, and offsets of handlers have to fit in both.
-/

namespace ClassSplice.Assembler

open Code (Buffer Opcode)
open Descriptor (ValueKind)

variable {α β : Type} {shift : Shift}

/-! ## Buffers and pools -/

def Shift.Moves (shift : Shift) (change change' : Buffer → Buffer) : Prop :=
  ∀ buffer, change' (buffer.onto shift.front) = (change buffer).onto shift.front

theorem parallel_emit {change change' : Buffer → Buffer} (moves : shift.Moves change change') :
    shift.Parallel (shift.InStep shift.Alike) Eq (emit change) (emit change') := by
  refine .modify fun state state' inStep => ⟨{ inStep.related with buffer := ?_ }, inStep.line⟩
  show change' state'.buffer = _
  rw [inStep.related.buffer, moves]

theorem placeless_addSlotted {buffer : Buffer} {opcode : Opcode} {slot : Nat} {error : Error}
    (refused : buffer.addSlotted opcode slot = .error error) : Placeless error := by
  unfold Buffer.addSlotted at refused
  split at refused
  · cases refused
  · split at refused
    · cases refused
    · cases refused
      exact fun _ => rfl

theorem placeless_addAccess {buffer : Buffer} {opcode short : Opcode} {kind : ValueKind} {slot : Nat}
    {error : Error} (refused : buffer.addAccess opcode short kind slot = .error error) :
    Placeless error := by
  unfold Buffer.addAccess at refused
  dsimp only at refused
  split at refused
  · cases refused
  · cases made : buffer.addSlotted opcode slot with
    | ok =>
        rw [made] at refused
        cases refused
    | error =>
        rw [made] at refused
        cases refused
        exact placeless_addSlotted made

theorem placeless_addRet {buffer : Buffer} {slot : Nat} {error : Error}
    (refused : buffer.addRet slot = .error error) : Placeless error := by
  unfold Buffer.addRet at refused
  cases made : buffer.addSlotted Opcode.ret slot with
  | ok =>
      rw [made] at refused
      cases refused
  | error =>
      rw [made] at refused
      cases refused
      exact placeless_addSlotted made

theorem respects_emitChecked {change : Buffer → Except Error Buffer}
    (moves : ∀ buffer, change (buffer.onto shift.front) = (change buffer).map (·.onto shift.front))
    (placeless : ∀ {buffer error}, change buffer = .error error → Placeless error) :
    shift.Respects (emitChecked change) := by
  unfold emitChecked
  refine .get_bind fun state state' inStep => ?_
  rw [inStep.related.buffer, moves]
  have added : shift.Parallel (shift.InStep shift.Alike) shift.Buffers
      (encoded (change state.buffer)) (encoded ((change state.buffer).map (·.onto shift.front))) := by
    cases made : change state.buffer with
    | error => exact .fail (placeless made _)
    | ok => exact .pure rfl
  refine added.bind fun buffer after same => .modify fun _ _ inStep => ?_
  exact ⟨{ inStep.related with buffer := same }, inStep.line⟩

structure Fills (change : PoolM α) : Prop where
  full : ∀ {pool error pool'}, outcome change pool = (.error error, pool') →
    ∃ constant offset, error = .poolFull constant offset

theorem Fills.bind {change : PoolM α} {rest : α → PoolM β} (first : Fills change)
    (second : ∀ value, Fills (rest value)) : Fills (change >>= rest) := by
  constructor
  intro pool error pool' refused
  rcases outcome_bind_eq_error.1 refused with refused | ⟨value, middle, _, refused⟩
  · exact first.full refused
  · exact (second value).full refused

theorem fills_pure (value : α) : Fills (pure value) :=
  ⟨fun refused => nomatch refused⟩

theorem fills_intern (constant : Pool.Constant) : Fills (Pool.intern constant) := by
  constructor
  intro pool error pool' refused
  simp only [outcome, Pool.intern] at refused
  split at refused
  · cases refused
  · split at refused
    · cases refused
    · cases refused
      exact ⟨_, _, rfl⟩

theorem fills_internClass (name : String) : Fills (Pool.internClass name) :=
  (fills_intern _).bind fun _ => fills_intern _

theorem fills_internString (value : String) : Fills (Pool.internString value) :=
  (fills_intern _).bind fun _ => fills_intern _

theorem fills_internNameAndType (name descriptor : String) :
    Fills (Pool.internNameAndType name descriptor) :=
  (fills_intern _).bind fun _ => (fills_intern _).bind fun _ => fills_intern _

theorem fills_internField (owner name descriptor : String) :
    Fills (Pool.internField owner name descriptor) :=
  (fills_internClass owner).bind fun _ => (fills_internNameAndType name descriptor).bind fun _ =>
    fills_intern _

theorem fills_internMethod (owner name descriptor : String) (isInterface : Bool) :
    Fills (Pool.internMethod owner name descriptor isInterface) :=
  (fills_internClass owner).bind fun _ => (fills_internNameAndType name descriptor).bind fun _ =>
    fills_intern _

theorem fills_addInteger (buffer : Buffer) (value : Int32) : Fills (buffer.addInteger value) := by
  unfold Buffer.addInteger
  dsimp only
  split
  · exact fills_pure _
  · split
    · exact fills_pure _
    · split
      · exact fills_pure _
      · exact (fills_intern _).bind fun _ => fills_pure _

theorem respects_inPool {change : PoolM α} (fills : Fills change) : shift.Respects (inPool change) := by
  constructor
  intro state state' pool inStep
  simp only [outcome, inPool]
  rcases made : change pool with ⟨error | value, pool'⟩
  · obtain ⟨constant, offset, rfl⟩ := fills.full made
    exact .error ⟨inStep.line, rfl⟩
  · exact .ok rfl inStep

/-! ## Operands -/

theorem respects_nextOperand (what : String) : shift.Respects (nextOperand what) := by
  unfold nextOperand
  refine .get_bind fun state state' inStep => ?_
  rw [inStep.related.operands]
  cases state.operands with
  | nil => exact .failSyntax _
  | cons token operands =>
      refine .next (.modify fun _ _ inStep => ?_) fun _ => .pure rfl
      exact ⟨{ inStep.related with operands := rfl }, inStep.line⟩

theorem respects_nextWord (what : String) : shift.Respects (nextWord what) := by
  unfold nextWord
  refine .next (respects_nextOperand what) fun token => ?_
  split
  · exact .pure rfl
  · exact .failSyntax _

theorem respects_keyword (expected : String) : shift.Respects (keyword expected) := by
  unfold keyword
  exact .next (respects_nextWord expected) fun _ => .ite (fun _ => .failSyntax _) fun _ => .pure rfl

theorem respects_nextInteger (what : String) (low high : Int) :
    shift.Respects (nextInteger what low high) := by
  unfold nextInteger
  refine .next (respects_nextWord what) fun word => ?_
  split
  · exact .ite (fun _ => .pure rfl) fun _ => .failSyntax _
  · exact .failSyntax _

theorem respects_nextMember (what : String) : shift.Respects (nextMember what) := by
  unfold nextMember
  refine .next (respects_nextWord what) fun word => ?_
  split
  · exact .pure rfl
  · exact .failSyntax _

theorem respects_nextSlot : shift.Respects nextSlot := by
  unfold nextSlot
  refine .next (respects_nextWord _) fun word => ?_
  split
  · exact .ite (fun _ => .pure rfl) fun _ => .failSyntax _
  · refine .get_bind fun state state' inStep => ?_
    rw [inStep.related.scope]
    split
    · exact .pure rfl
    · exact .fail rfl

theorem respects_typeOf (word : String) : shift.Respects (typeOf word) := by
  unfold typeOf
  split
  · exact .pure rfl
  · exact .fail rfl

theorem respects_classConstant (word : String) : shift.Respects (classConstant word) := by
  unfold classConstant
  refine .next (respects_typeOf word) fun type => ?_
  split
  · exact respects_inPool (fills_internClass _)
  · exact .fail rfl

theorem respects_nextConstant : shift.Respects nextConstant := by
  unfold nextConstant
  refine .next (respects_nextOperand _) fun token => ?_
  split
  · exact respects_inPool (fills_internString _)
  · split
    · exact .ite (fun _ => respects_inPool (fills_intern _)) fun _ => .failSyntax _
    · split
      · exact respects_inPool (fills_intern _)
      · exact respects_classConstant _

theorem respects_nextWideConstant : shift.Respects nextWideConstant := by
  unfold nextWideConstant
  refine .next (respects_nextWord _) fun word => ?_
  split
  · exact respects_inPool (fills_intern _)
  · split
    · exact respects_inPool (fills_intern _)
    · exact .failSyntax _

theorem respects_useOperands (read : List Token → Except SyntaxFault (α × List Token)) :
    shift.Respects (useOperands read) := by
  unfold useOperands
  refine .get_bind fun state state' inStep => ?_
  rw [inStep.related.operands]
  split
  · refine .next (.modify fun _ _ inStep => ?_) fun _ => .pure rfl
    exact ⟨{ inStep.related with operands := rfl }, inStep.line⟩
  · exact .failSyntax _

theorem respects_nextDefault : shift.Respects nextDefault :=
  .next (respects_keyword _) fun _ => respects_nextWord _

theorem respects_finishOperands : shift.Respects finishOperands := by
  unfold finishOperands
  refine .get_bind fun state state' inStep => ?_
  rw [inStep.related.operands]
  split
  · exact .pure rfl
  · exact .failSyntax _

/-! ## Labels -/

theorem Shift.Alike.setLabel {one other : Assembly} {label label' : Label}
    (alike : shift.Alike one other) (name : String) (moved : label' = label.moved shift.front.pc) :
    shift.Alike (one.setLabel name label) (other.setLabel name label') := by
  refine { alike with labels := fun name' => ?_ }
  rw [label_setLabel, label_setLabel, moved]
  split
  · rfl
  · exact alike.labels name'

theorem respects_expectDepth (name : String) (depth : Int) :
    shift.Respects (expectDepth name depth) := by
  refine .modify fun state state' inStep => ⟨inStep.related.setLabel name ?_, inStep.line⟩
  rw [inStep.related.labels]
  rfl

theorem respects_reachLabel (label : String) : shift.Respects (reachLabel label) := by
  unfold reachLabel
  refine .get_bind fun state state' inStep => ?_
  rw [inStep.related.buffer, Buffer.depth_onto]
  exact respects_expectDepth label _

theorem respects_placeLabel (name : String) : shift.Respects (placeLabel name) := by
  unfold placeLabel
  refine .get_bind fun state state' inStep => ?_
  have alike := inStep.related
  have same : (state'.label name).pos.isSome = (state.label name).pos.isSome := by
    simp [alike.labels, Label.moved]
  have depth : (state'.label name).depth = (state.label name).depth := by
    simp [alike.labels, Label.moved]
  dsimp only
  rw [same, depth, alike.buffer, alike.reachable, Buffer.pc_onto, Buffer.depth_onto]
  refine .ite (fun _ => .fail rfl) fun _ => .set ⟨?_, inStep.line⟩
  have moved (depth : Option Int) : Label.mk (some (shift.front.pc + state.buffer.pc)) depth =
      (Label.mk (some state.buffer.pc) depth).moved shift.front.pc := rfl
  refine { alike.setLabel name (moved _) with buffer := ?_, reachable := rfl }
  cases (state.label name).depth with
  | none => rfl
  | some depth =>
      dsimp only
      split
      · rfl
      · rfl

theorem parallel_addDisplacement {origin origin' : Nat} (label : String) (isWide : Bool)
    (moved : shift.Offsets origin origin') :
    shift.Parallel (shift.InStep shift.Alike) Eq (addDisplacement label origin isWide)
      (addDisplacement label origin' isWide) := by
  refine .modify fun state state' inStep =>
    ⟨{ inStep.related with buffer := ?_, fixups := ?_ }, inStep.line⟩
  · rw [inStep.related.buffer]
    split
    · exact Buffer.addI32_onto ..
    · exact Buffer.addU16_onto ..
  · rw [Array.toList_push, Array.toList_push]
    refine List.rel_append inStep.related.fixups (.cons ⟨inStep.line, rfl, moved, ?_, rfl⟩ .nil)
    rw [inStep.related.buffer]
    exact Buffer.pc_onto ..

theorem parallel_switchTarget {origin origin' : Nat} (label : String)
    (moved : shift.Offsets origin origin') :
    shift.Parallel (shift.InStep shift.Alike) Eq (switchTarget origin label)
      (switchTarget origin' label) :=
  .next (parallel_addDisplacement label true moved) fun _ => respects_reachLabel label

/-! ## Instructions -/

theorem respects_increment : shift.Respects increment := by
  have reserved (slot : Nat) : shift.Respects (emit (·.reserveLocals (slot + 1))) :=
    parallel_emit fun _ => rfl
  unfold increment
  refine .next respects_nextSlot fun slot => .next (respects_nextInteger _ _ _) fun delta => ?_
  dsimp only
  split
  · exact .next (parallel_emit fun _ => by simp) fun _ => reserved slot
  · split
    · exact .next (parallel_emit fun _ => by simp) fun _ => reserved slot
    · exact .next (.fail rfl) fun _ => reserved slot

theorem respects_branch (opcode : Opcode) : shift.Respects (branch opcode) := by
  unfold branch
  refine .next (respects_nextWord _) fun label => .get_bind fun state state' inStep => ?_
  have moved : shift.Offsets state.buffer.pc state'.buffer.pc := by
    rw [inStep.related.buffer, Buffer.pc_onto]
  refine .next (parallel_emit fun _ => by simp) fun _ => ?_
  refine .next (parallel_addDisplacement label _ moved) fun _ => ?_
  exact .next (respects_reachLabel label) fun _ =>
    .ite (fun _ => parallel_emit fun _ => rfl) fun _ => .pure rfl

section Switch

variable (aligned : 4 ∣ shift.front.pc)
include aligned

theorem parallel_switchHeader (opcode : Opcode) (default : String) :
    shift.Parallel (shift.InStep shift.Alike) shift.Offsets
      (switchHeader opcode default) (switchHeader opcode default) := by
  unfold switchHeader
  refine .get_bind fun state state' inStep => ?_
  have moved : shift.Offsets state.buffer.pc state'.buffer.pc := by
    rw [inStep.related.buffer, Buffer.pc_onto]
  -- Both stand at the same distance from a multiple of four.
  have padding : Code.switchPadding state'.buffer.pc = Code.switchPadding state.buffer.pc := by
    apply Code.switchPadding_congr
    omega
  dsimp only
  rw [padding]
  refine .next (parallel_emit fun _ => by simp) fun _ => ?_
  exact .next (parallel_switchTarget default moved) fun _ => .pure moved

theorem respects_tableSwitch : shift.Respects tableSwitch := by
  unfold tableSwitch
  refine .next (respects_nextInteger _ _ _) fun low => .next (respects_useOperands _) fun labels =>
    .next respects_nextDefault fun default => ?_
  refine .ite (fun _ => .failSyntax _) fun _ => .ite (fun _ => .failSyntax _) fun _ => ?_
  refine (parallel_switchHeader aligned _ default).bind fun origin origin' moved => ?_
  refine .next (parallel_emit fun _ => by simp) fun _ => ?_
  refine .forM (List.forall₂_same.2 fun _ _ => rfl) fun label label' _ same => ?_
  rw [← same]
  exact parallel_switchTarget label moved

theorem respects_lookupSwitch : shift.Respects lookupSwitch := by
  unfold lookupSwitch
  refine .next (respects_useOperands _) fun cases => .next respects_nextDefault fun default => ?_
  dsimp only
  split
  · exact .failSyntax _
  · refine (parallel_switchHeader aligned _ default).bind fun origin origin' moved => ?_
    refine .next (parallel_emit fun _ => by simp) fun _ => ?_
    refine .forM (List.forall₂_same.2 fun _ _ => rfl) fun pair pair' _ same => ?_
    rw [← same]
    exact .next (parallel_emit fun _ => by simp) fun _ => parallel_switchTarget pair.2 moved

end Switch

theorem respects_fieldAccess (opcode : Opcode) : shift.Respects (fieldAccess opcode) := by
  unfold fieldAccess
  refine .next (respects_nextMember _) fun field => ?_
  split
  · exact .fail rfl
  · exact .next (respects_inPool (fills_internField _ _ _)) fun _ => parallel_emit fun _ => by simp

theorem respects_call (opcode : Opcode) : shift.Respects (call opcode) := by
  unfold call
  refine .next (respects_nextMember _) fun method => ?_
  split
  · exact .fail rfl
  · rename_i type _
    have effect : shift.Respects (emit (·.grow (type.stackEffect (opcode ≠ Opcode.invokestatic)))) :=
      parallel_emit fun _ => rfl
    refine .next (respects_inPool (fills_internMethod _ _ _ _)) fun index =>
      .next (parallel_emit fun _ => by simp) fun _ => ?_
    dsimp only
    split
    · split
      · exact .next (.failSyntax _) fun _ => effect
      · exact .next (parallel_emit fun _ => by simp) fun _ => effect
    · exact effect

theorem respects_newArray : shift.Respects newArray := by
  unfold newArray
  refine .next (respects_nextWord _) fun element => ?_
  split
  · exact parallel_emit fun _ => by simp
  · exact .fail rfl

theorem respects_newArrays : shift.Respects newArrays := by
  unfold newArrays
  refine .next (respects_nextWord _) fun word => .next (respects_classConstant word) fun index =>
    .next (respects_nextInteger _ _ _) fun dimensions => ?_
  exact .ite (fun _ => .failSyntax _) fun _ => parallel_emit fun _ => by simp

theorem respects_operation (opcode : Opcode) (switches : opcode.isSwitch = true → 4 ∣ shift.front.pc) :
    shift.Respects (operation opcode) := by
  have ending : shift.Respects (if opcode.endsFlow then
      modify fun state => { state with reachable := false } else pure ()) :=
    .ite (fun _ => .modify fun _ _ inStep => ⟨{ inStep.related with reachable := rfl }, inStep.line⟩)
      fun _ => .pure rfl
  have emitted {change : Buffer → Buffer} (moves : shift.Moves change change) :=
    (parallel_emit moves).next fun _ => ending
  unfold operation
  -- One case for each form of operands, in the order in which they are told apart.
  apply Shift.Parallel.ite <;> intro _
  · exact .next (.next (respects_nextInteger _ _ _) fun _ => .pure rfl) fun _ => emitted fun _ => by simp
  apply Shift.Parallel.ite <;> intro _
  · exact .next (respects_nextInteger _ _ _) fun _ => emitted fun _ => by simp
  apply Shift.Parallel.ite <;> intro _
  · exact .next respects_nextConstant fun _ => emitted fun _ => by simp
  apply Shift.Parallel.ite <;> intro _
  · exact .next respects_nextWideConstant fun _ => emitted fun _ => by simp
  apply Shift.Parallel.ite <;> intro _
  · exact .next respects_nextSlot fun _ =>
      .next (respects_emitChecked (fun _ => Buffer.addLoad_onto ..) placeless_addAccess) fun _ => ending
  apply Shift.Parallel.ite <;> intro _
  · exact .next respects_nextSlot fun _ =>
      .next (respects_emitChecked (fun _ => Buffer.addStore_onto ..) placeless_addAccess) fun _ => ending
  apply Shift.Parallel.ite <;> intro _
  · exact .next respects_nextSlot fun _ =>
      .next (respects_emitChecked (fun _ => Buffer.addRet_onto ..) placeless_addRet) fun _ => ending
  apply Shift.Parallel.ite <;> intro _
  · exact respects_increment.next fun _ => ending
  apply Shift.Parallel.ite <;> intro _
  · exact (respects_branch opcode).next fun _ => ending
  apply Shift.Parallel.ite <;> intro table
  · exact (respects_tableSwitch (switches (by simp [Opcode.isSwitch, table]))).next fun _ => ending
  apply Shift.Parallel.ite <;> intro lookup
  · exact (respects_lookupSwitch (switches (by simp [Opcode.isSwitch, lookup]))).next fun _ => ending
  apply Shift.Parallel.ite <;> intro _
  · exact (respects_fieldAccess opcode).next fun _ => ending
  apply Shift.Parallel.ite <;> intro _
  · exact (respects_call opcode).next fun _ => ending
  apply Shift.Parallel.ite <;> intro _
  · exact .next (.failSyntax _) fun _ => ending
  apply Shift.Parallel.ite <;> intro _
  · exact .next (respects_nextWord _) fun word => .next (respects_classConstant word) fun _ =>
      emitted fun _ => by simp
  apply Shift.Parallel.ite <;> intro _
  · exact respects_newArray.next fun _ => ending
  apply Shift.Parallel.ite <;> intro _
  · exact respects_newArrays.next fun _ => ending
  apply Shift.Parallel.ite <;> intro _
  · exact .next (.failSyntax _) fun _ => ending
  · exact emitted fun _ => by simp

/-! ## Statements -/

theorem respects_moveVariable {move : Buffer → Nat → ValueKind → Except Error Buffer}
    (moves : ∀ buffer slot kind,
      move (buffer.onto shift.front) slot kind = (move buffer slot kind).map (·.onto shift.front))
    (placeless : ∀ {buffer slot kind error}, move buffer slot kind = .error error → Placeless error) :
    shift.Respects (moveVariable move) := by
  unfold moveVariable
  refine .next (respects_nextWord _) fun name => .get_bind fun state state' inStep => ?_
  rw [inStep.related.scope]
  split
  · exact .fail rfl
  · exact respects_emitChecked (fun buffer => moves buffer _ _) placeless

theorem respects_pushInteger : shift.Respects pushInteger := by
  unfold pushInteger
  refine .next (respects_nextInteger _ _ _) fun value => .get_bind fun state state' inStep => ?_
  have pushed : shift.Parallel (shift.InStep shift.Alike) shift.Buffers
      (inPool (state.buffer.addInteger (Int32.ofInt value)))
      (inPool (state'.buffer.addInteger (Int32.ofInt value))) := by
    constructor
    intro one other pool inStep'
    have moved := Buffer.addInteger_onto state.buffer shift.front (Int32.ofInt value) pool
    rw [inStep.related.buffer]
    simp only [outcome, inPool] at moved ⊢
    rw [moved]
    rcases made : state.buffer.addInteger (Int32.ofInt value) pool with ⟨error | buffer, pool'⟩
    · obtain ⟨constant, offset, rfl⟩ := (fills_addInteger _ _).full made
      exact .error ⟨inStep'.line, rfl⟩
    · exact .ok rfl inStep'
  refine pushed.bind fun buffer after same => .modify fun _ _ inStep => ?_
  exact ⟨{ inStep.related with buffer := same }, inStep.line⟩

theorem parallel_declare (scope : Scope) (buffer : Buffer) (name : String)
    (type : Descriptor.FieldType) :
    shift.Parallel (shift.InStep shift.Alike)
      (fun (made made' : Nat × Scope × Buffer) => made' = (made.1, made.2.1, made.2.2.onto shift.front))
      (encoded (scope.declare buffer name type))
      (encoded (scope.declare (buffer.onto shift.front) name type)) := by
  unfold Scope.declare
  rw [Buffer.allocateLocal_onto]
  rcases allocated : buffer.allocateLocal type.width with error | ⟨slot, after⟩
  · obtain rfl := Buffer.allocateLocal_eq_error allocated
    exact .fail rfl
  · exact .pure rfl

theorem respects_declareLocal : shift.Respects declareLocal := by
  unfold declareLocal
  refine .next (respects_nextWord _) fun name => .ite (fun _ => .failSyntax _) fun _ => ?_
  refine .next (respects_nextWord _) fun word => .next (respects_typeOf word) fun type => ?_
  refine .get_bind fun state state' inStep => ?_
  rw [inStep.related.scope, inStep.related.buffer]
  refine (parallel_declare _ _ name type).bind fun made made' same => ?_
  rw [same]
  exact .set ⟨{ inStep.related with scope := rfl, buffer := rfl }, inStep.line⟩

theorem respects_declareHandler : shift.Respects declareHandler := by
  rw [declareHandler_eq]
  refine .next (respects_nextWord _) fun caught => ?_
  have rest (catchType : Pool.Index) : shift.Respects (handlerRange catchType) := by
    refine .next (respects_keyword _) fun _ => .next (respects_nextWord _) fun start =>
      .next (respects_keyword _) fun _ => .next (respects_nextWord _) fun stop =>
        .next (respects_keyword _) fun _ => .next (respects_nextWord _) fun target =>
          .next (respects_expectDepth _ _) fun _ => .modify fun state state' inStep => ?_
    refine ⟨{ inStep.related with handlers := ?_ }, inStep.line⟩
    rw [Array.toList_push, Array.toList_push]
    exact List.rel_append inStep.related.handlers (.cons ⟨inStep.line, rfl, rfl, rfl, rfl⟩ .nil)
  dsimp only
  split
  · exact .next (.pure rfl) rest
  · exact .next (respects_classConstant _) rest

theorem respects_instruction {mnemonic : String}
    (switches : ∀ opcode, Opcode.ofMnemonic? mnemonic = some opcode → opcode.isSwitch = true →
      4 ∣ shift.front.pc) : shift.Respects (instruction mnemonic) := by
  unfold instruction
  split
  · exact respects_moveVariable (fun _ _ _ => Buffer.addLoad_onto ..) placeless_addAccess
  · exact respects_moveVariable (fun _ _ _ => Buffer.addStore_onto ..) placeless_addAccess
  · exact respects_pushInteger
  · exact respects_declareLocal
  · exact respects_declareHandler
  · split
    · exact .fail rfl
    · rename_i opcode known
      refine .next (respects_operation opcode (switches opcode known)) fun _ => ?_
      refine .get_bind fun state state' inStep => ?_
      rw [inStep.related.buffer, Buffer.depth_onto]
      exact .ite (fun _ => .fail rfl) fun _ => .pure rfl

def Statement.isSwitch (source : Statement) : Bool :=
  source.mnemonic? == some "tableswitch" || source.mnemonic? == some "lookupswitch"

theorem mnemonic_of_isSwitch {mnemonic : String} {opcode : Opcode}
    (known : Opcode.ofMnemonic? mnemonic = some opcode) (switch : opcode.isSwitch = true) :
    mnemonic = "tableswitch" ∨ mnemonic = "lookupswitch" := by
  obtain ⟨index, found, rfl⟩ := Option.map_eq_some_iff.1 known
  obtain ⟨inRange, spelled, _⟩ := Array.findIdx?_eq_some_iff_getElem.1 found
  have size : Opcode.table.size = 202 := rfl
  have small : (UInt8.ofNat index).toNat = index := by
    rw [UInt8.toNat_ofNat']
    omega
  rw [Opcode.isSwitch, Bool.or_eq_true, beq_iff_eq, beq_iff_eq] at switch
  rw [beq_iff_eq] at spelled
  rcases switch with table | lookup
  · obtain rfl : index = 170 := by rw [← small, table]; rfl
    exact .inl (spelled.symm.trans rfl)
  · obtain rfl : index = 171 := by rw [← small, lookup]; rfl
    exact .inr (spelled.symm.trans rfl)

theorem parallel_statement {source source' : Statement} (same : shift.Statements source source')
    (switches : source.isSwitch = true → 4 ∣ shift.front.pc) :
    shift.Parallel shift.Alike Eq (statement source) (statement source') := by
  have kept {state state' : Assembly} (alike : shift.Alike state state') :
      shift.Alike { state with line := source.line } { state' with line := source'.line } :=
    ⟨alike.scope, alike.buffer, alike.labels, alike.fixups, alike.handlers, alike.reachable,
      alike.operands⟩
  refine Shift.parallel_numbered same.line kept ?_
  rw [same.tokens]
  simp only [placeLabels_eq, bind_assoc, pure_bind]
  refine .next (.forM_same respects_placeLabel _) fun _ => ?_
  unfold Statement.isSwitch Statement.mnemonic? at switches
  generalize (splitLabels source.tokens).2 = rest at switches
  rcases rest with _ | ⟨mnemonic | text, operands⟩
  · exact .pure rfl
  · refine .next (.modify fun _ _ inStep => ?_) fun _ => ?_
    · exact ⟨{ inStep.related with operands := rfl }, inStep.line⟩
    · refine .next (respects_instruction fun opcode known switch => switches ?_) fun _ =>
        respects_finishOperands
      simpa using mnemonic_of_isSwitch known switch
  · exact .failSyntax _

/-! ## What depends on labels -/

theorem parallel_placedAt (name : String) :
    shift.Parallel (shift.InStep shift.Settled)
      (fun pos pos' => shift.Offsets pos pos' ∧ (shift.front.pc = 0 ∨ shift.front.pc + pos ≤ 65535))
      (placedAt name) (placedAt name) := by
  unfold placedAt
  refine .get_bind fun state state' inStep => ?_
  rw [inStep.related.labels]
  cases placed : (state.label name).pos with
  | none =>
      rw [Label.moved, placed]
      exact .fail rfl
  | some pos =>
      rw [Label.moved, placed]
      exact .pure ⟨rfl, inStep.related.room.imp_right fun room => room name pos placed⟩

theorem Shift.Settled.line {state state' : Assembly} (settled : shift.Settled state state')
    (line line' : Nat) : shift.Settled { state with line } { state' with line := line' } :=
  ⟨⟨settled.scope, settled.buffer, settled.labels, settled.fixups, settled.handlers, settled.reachable,
    settled.operands⟩, settled.room⟩

theorem Shift.Settled.withBuffer {state state' : Assembly} {buffer buffer' : Buffer}
    (settled : shift.Settled state state') (moved : shift.Buffers buffer buffer') :
    shift.Settled { state with buffer } { state' with buffer := buffer' } :=
  ⟨{ settled.toAlike with buffer := moved }, settled.room⟩

theorem parallel_patch {fixup fixup' : Fixup} (same : shift.Fixups fixup fixup') :
    shift.Parallel shift.Settled Eq (patch fixup) (patch fixup') := by
  refine Shift.parallel_numbered same.line (fun settled => settled.line _ _) ?_
  rw [same.label, same.isWide]
  refine (parallel_placedAt fixup.label).bind fun target target' ⟨moved, _⟩ => ?_
  -- The target and the origin are moved alike.
  have distance : (target' : Int) - fixup'.origin = target - fixup.origin := by
    rw [moved, same.origin]
    omega
  have written (bytes : List UInt8) : shift.Parallel (shift.InStep shift.Settled) Eq
      (emit (·.overwrite fixup.pos bytes)) (emit (·.overwrite fixup'.pos bytes)) := by
    refine .modify fun state state' inStep => ⟨inStep.related.withBuffer ?_, inStep.line⟩
    rw [inStep.related.buffer, same.pos]
    exact Buffer.overwrite_onto ..
  dsimp only
  rw [distance]
  exact .ite (fun _ => written _) fun _ => .ite (fun _ => written _) fun _ => .failSyntax _

theorem parallel_addHandler {handler handler' : PendingHandler}
    (same : shift.Handlers handler handler') :
    shift.Parallel shift.Settled Eq (addHandler handler) (addHandler handler') := by
  refine Shift.parallel_numbered same.line (fun settled => settled.line _ _) ?_
  rw [same.start, same.stop, same.target, same.catchType]
  refine (parallel_placedAt handler.start).bind fun start start' ⟨first, low⟩ => ?_
  refine (parallel_placedAt handler.stop).bind fun stop stop' ⟨last, high⟩ => ?_
  refine (parallel_placedAt handler.target).bind fun target target' ⟨entered, goal⟩ => ?_
  unfold emitChecked
  refine .get_bind fun state state' inStep => ?_
  have added : shift.Parallel (shift.InStep shift.Settled) shift.Buffers
      (encoded (state.buffer.addHandler start stop target handler.catchType))
      (encoded (state'.buffer.addHandler start' stop' target' handler.catchType)) := by
    rw [first, last, entered, inStep.related.buffer]
    -- Nothing is moved behind a front without code, and so offsets need no room there.
    by_cases bare : shift.front.pc = 0
    · rw [bare, Nat.zero_add, Nat.zero_add, Nat.zero_add, Buffer.addHandler_onto_of_pc _ _ bare]
      cases state.buffer.addHandler start stop target handler.catchType with
      | error => exact .fail (by rw [bare, Cause.moved_zero])
      | ok => exact .pure rfl
    · have fits {pos : Nat} (room : shift.front.pc = 0 ∨ shift.front.pc + pos ≤ 65535) :=
        room.resolve_left bare
      obtain ⟨after, near, far⟩ | ⟨near, far⟩ :=
        state.buffer.addHandler_onto shift.front (fits low) (fits high) (fits goal)
      · rw [near, far]
        exact .pure rfl
      · rw [near, far]
        exact ⟨fun _ inStep => .error ⟨inStep.line, rfl⟩⟩
  exact added.bind fun buffer after moved => .modify fun _ _ inStep =>
    ⟨inStep.related.withBuffer moved, inStep.line⟩

def finish : AssemblyM Unit := do
  (← get).fixups.forM patch
  (← get).handlers.forM addHandler

theorem assembleAll_eq (sources : List Statement) : assembleAll sources = (do
    sources.forM statement
    finish) :=
  rfl

theorem parallel_finish : shift.Parallel shift.Settled Eq finish finish := by
  unfold finish
  refine .get_bind fun state state' settled => ?_
  refine .next (.forArray settled.fixups fun _ _ => parallel_patch) fun _ => ?_
  exact .get_bind fun state state' settled => .forArray settled.handlers fun _ _ => parallel_addHandler

/-! ## Listings -/

section Listings

variable {source source' : String} {scope : Scope} {buffer : Buffer} {sources sources' : List Statement}
  {pool : Pool}

inductive Shift.Ends (shift : Shift) :
    Except Fault (Scope × Buffer) × Pool → Except Fault (Scope × Buffer) × Pool → Prop
  | ok {scope : Scope} {buffer buffer' : Buffer} {pool : Pool} (moved : shift.Buffers buffer buffer') :
      Ends shift (.ok (scope, buffer), pool) (.ok (scope, buffer'), pool)
  | error {fault fault' : Fault} {pool : Pool} (faults : shift.Faults fault fault') :
      Ends shift (.error fault, pool) (.error fault', pool)

/-- The statements of a listing come to code that ends at this offset. -/
def ComesTo (source : String) (scope : Scope) (buffer : Buffer) (pool : Pool) (stop : Nat) : Prop :=
  ∃ sources state pool', statements source = .ok sources ∧
    Yields (sources.forM statement) { scope, buffer } pool () state pool' ∧ state.buffer.pc = stop

def HasSwitch (source : String) : Prop :=
  ∃ sources, statements source = .ok sources ∧ ∃ source ∈ sources, source.isSwitch = true

theorem Trace.pos_le {state : Assembly} {last : Pool} {groups : List (List Piece)}
    (trace : Trace last { scope, buffer } sources groups state) {name : String} {pos : Nat}
    (placed : (state.label name).pos = some pos) : pos ≤ state.buffer.pc := by
  have initial : Behind buffer { scope, buffer } := by
    refine ⟨⟨List.prefix_rfl, [], by simp, by simp⟩, ?_, by simp⟩
    intro name pos placed
    simp [Assembly.label] at placed
  exact ((initial.trace trace).labels name pos placed).2

theorem agree_assembleAll_of_alike {state state' : Assembly}
    (same : List.Forall₂ shift.Statements sources sources')
    (switches : ∀ source ∈ sources, source.isSwitch = true → 4 ∣ shift.front.pc)
    (start : shift.Alike state state')
    (settled : ∀ {last last' : Assembly} {pool' : Pool},
      Yields (sources.forM statement) state pool () last pool' → shift.Alike last last' →
        shift.Settled last last') :
    shift.Agree shift.Settled Eq (outcome (assembleAll sources state) pool)
      (outcome (assembleAll sources' state') pool) := by
  have parallel : shift.Parallel shift.Alike Eq (sources.forM statement) (sources'.forM statement) :=
    .forM same fun source source' member same => parallel_statement same (switches source member)
  have agree := parallel.agree pool start
  rw [assembleAll_eq, assembleAll_eq, outcome_step_bind, outcome_step_bind]
  generalize made : outcome (sources.forM statement state) pool = result at agree ⊢
  generalize outcome (sources'.forM statement _) pool = result' at agree ⊢
  cases agree with
  | error faults => exact .error faults
  | ok _ alike => exact parallel_finish.agree _ (settled made alike)

theorem agree_assembleAll (same : List.Forall₂ shift.Statements sources sources')
    (switches : ∀ source ∈ sources, source.isSwitch = true → 4 ∣ shift.front.pc)
    (room : shift.front.pc = 0 ∨ ∀ state pool',
      Yields (sources.forM statement) { scope, buffer } pool () state pool' →
        shift.front.pc + state.buffer.pc ≤ 65535) :
    shift.Agree shift.Settled Eq (outcome (assembleAll sources { scope, buffer }) pool)
      (outcome (assembleAll sources' { scope, buffer := buffer.onto shift.front }) pool) := by
  have start : shift.Alike { scope, buffer } { scope, buffer := buffer.onto shift.front } :=
    ⟨rfl, rfl, fun name => by simp [Assembly.label, Label.moved], .nil, .nil, rfl, rfl⟩
  refine agree_assembleAll_of_alike same switches start fun {last _ pool'} made alike => ?_
  -- Labels lie within the code, which is known to fit now that it is complete.
  obtain ⟨_, trace⟩ := yields_statements made .refl
  refine ⟨alike, room.imp_right fun room name pos placed => ?_⟩
  exact Nat.le_trans (Nat.add_le_add_left (trace.pos_le placed) _) (room last pool' made)

theorem outcome_assemble_of_error {fault : Fault} (refused : statements source = .error fault) :
    outcome (assemble source scope buffer) pool = (.error fault, pool) := by
  unfold assemble
  rw [refused]
  rfl

theorem ends_assemble (splits : shift.Splits (statements source) (statements source'))
    (switches : HasSwitch source → 4 ∣ shift.front.pc)
    (room : shift.front.pc = 0 ∨ ∀ stop, ComesTo source scope buffer pool stop →
      shift.front.pc + stop ≤ 65535) :
    shift.Ends (outcome (assemble source scope buffer) pool)
      (outcome (assemble source' scope (buffer.onto shift.front)) pool) := by
  generalize split : statements source = result at splits
  generalize split' : statements source' = result' at splits
  cases splits with
  | error faults =>
      rw [outcome_assemble_of_error split, outcome_assemble_of_error split']
      exact .error faults
  | @ok sources sources' same =>
      have agree : shift.Agree shift.Settled Eq (outcome (assembleAll sources { scope, buffer }) pool)
          (outcome (assembleAll sources' { scope, buffer := buffer.onto shift.front }) pool) := by
        refine agree_assembleAll same (fun source member switch => ?_) (room.imp_right fun room => ?_)
        · exact switches ⟨sources, split, source, member, switch⟩
        · exact fun state pool' yields => room _ ⟨sources, state, pool', split, yields, rfl⟩
      rw [outcome_assemble split, outcome_assemble split']
      generalize outcome (assembleAll sources _) pool = run at agree ⊢
      generalize outcome (assembleAll sources' _) pool = run' at agree ⊢
      cases agree with
      | error faults => exact .error faults
      | ok _ settled =>
          dsimp only
          rw [settled.scope]
          exact .ok settled.buffer

theorem ends_assemble_of_pc (bare : shift.front.pc = 0)
    (splits : shift.Splits (statements source) (statements source')) :
    shift.Ends (outcome (assemble source scope buffer) pool)
      (outcome (assemble source' scope (buffer.onto shift.front)) pool) :=
  ends_assemble splits (fun _ => bare ▸ Nat.dvd_zero 4) (.inl bare)

end Listings

end ClassSplice.Assembler
