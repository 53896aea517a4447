import ClassSplice.Proofs.Assembler.Clause
import ClassSplice.Proofs.Assembler.Steps
import ClassSplice.Proofs.Code.Reach
import ClassSplice.Proofs.Code.Slots
import ClassSplice.Proofs.Code.StackEffect

namespace ClassSplice.Assembler

open Code (Buffer Instruction Opcode)
open Machine (accessed? slotsOf)

structure Leads {α : Type} (before : Assembly → Pool → Prop) (step : AssemblyM α)
    (after : α → Assembly → Pool → Prop) : Prop where
  leads : ∀ {state pool value state' pool'}, Yields step state pool value state' pool' →
    before state pool → after value state' pool'

namespace Leads

variable {α β : Type} {before : Assembly → Pool → Prop} {step : AssemblyM α} {rest : α → AssemblyM β}
  {between : α → Assembly → Pool → Prop} {after : β → Assembly → Pool → Prop}

theorem bind (first : Leads before step between)
    (second : ∀ value, Leads (between value) (rest value) after) :
    Leads before (step >>= rest) after := by
  constructor
  intro state pool value state' pool' yields initial
  obtain ⟨_, _, _, done, further⟩ := yields_bind.1 yields
  exact (second _).leads further (first.leads done initial)

theorem keep {holds : Assembly → Prop} {step : AssemblyM α} (kept : Preserves holds step) :
    Leads (fun state _ => holds state) step fun _ state _ => holds state :=
  ⟨kept.kept⟩

theorem get {before : Assembly → Pool → Prop} :
    Leads before (get : AssemblyM Assembly) fun found state pool => found = state ∧ before state pool := by
  constructor
  intro state pool found state' pool' yields initial
  obtain ⟨rfl, rfl, rfl⟩ := yields_get.1 yields
  exact ⟨rfl, initial⟩

theorem pure {before : Assembly → Pool → Prop} (value : α) :
    Leads before (pure value) fun _ state pool => before state pool := by
  constructor
  intro state pool found state' pool' yields initial
  obtain ⟨_, rfl, rfl⟩ := yields_pure.1 yields
  exact initial

theorem fail {cause : Cause} : Leads before (fail cause : AssemblyM β) after :=
  ⟨fun yields => absurd yields not_yields_fail⟩

theorem failSyntax {fault : SyntaxFault} : Leads before (failSyntax fault : AssemblyM β) after :=
  fail

theorem ite {condition : Prop} [Decidable condition] {one other : AssemblyM β}
    (holding : condition → Leads before one after) (failing : ¬ condition → Leads before other after) :
    Leads before (if condition then one else other) after := by
  split
  · exact holding ‹_›
  · exact failing ‹_›

theorem imp {before' : Assembly → Pool → Prop} {step : AssemblyM β}
    {weaker : β → Assembly → Pool → Prop} (led : Leads before step after)
    (initial : ∀ state pool, before' state pool → before state pool)
    (final : ∀ value state pool, after value state pool → weaker value state pool) :
    Leads before' step weaker :=
  ⟨fun yields known => final _ _ _ (led.leads yields (initial _ _ known))⟩

theorem inPool {holds : Assembly → Prop} (change : PoolM α) :
    Leads (fun state _ => holds state) (inPool change) fun value state pool =>
      (∃ earlier, outcome change earlier = (.ok value, pool)) ∧ holds state := by
  constructor
  intro state pool value state' pool' yields known
  obtain ⟨run, rfl⟩ := yields_inPool.1 yields
  exact ⟨⟨pool, run⟩, known⟩

end Leads

structure Piece where
  pos : Nat
  instruction : Instruction
  fixups : List Fixup

namespace Piece

/-- The labels that the instruction names, in the order of its targets. -/
def labels (piece : Piece) : List String :=
  piece.fixups.map Fixup.label

def filled (piece : Piece) (place : String → Int) : Instruction :=
  piece.instruction.retarget (piece.labels.map place)

structure Blank (piece : Piece) : Prop where
  targets : ∀ target ∈ piece.instruction.targets, target = piece.pos
  places : piece.fixups.map Fixup.pos = piece.instruction.slots piece.pos
  alike : ∀ fixup ∈ piece.fixups, fixup.origin = piece.pos ∧
    fixup.isWide = piece.instruction.hasWideSlots

variable {piece : Piece} {place : String → Int}

theorem eq_plain_of_filled {bytes : List UInt8} (plain : piece.filled place = .plain bytes) :
    piece.instruction = .plain bytes := by
  unfold filled at plain
  cases same : piece.instruction <;> rw [same] at plain <;> cases plain
  rfl

theorem stackEffect?_filled (pool : Pool) :
    (piece.filled place).stackEffect? pool = piece.instruction.stackEffect? pool := by
  unfold filled
  cases piece.instruction <;> rfl

theorem returnWidth_filled : (piece.filled place).returnWidth = piece.instruction.returnWidth := by
  unfold filled
  cases piece.instruction <;> rfl

theorem fallsThrough_filled : (piece.filled place).fallsThrough = piece.instruction.fallsThrough := by
  unfold filled
  cases piece.instruction <;> rfl

end Piece

structure Notes (fixups : List Fixup) (depth : Int) (start state : Assembly) : Prop where
  label : ∀ name, state.label name =
    if name ∈ fixups.map Fixup.label then (start.label name).met depth else start.label name
  fixups : state.fixups.toList = start.fixups.toList ++ fixups
  handlers : state.handlers = start.handlers

/-- Bytes are added, and fixups for labels that are met at the depth behind them. -/
structure Adds (bytes : List UInt8) (fixups : List Fixup) (growth : Int) (start state : Assembly) :
    Prop where
  grows : Buffer.Grows bytes growth start.buffer state.buffer
  notes : Notes fixups (start.buffer.depth + growth) start state
  reachable : state.reachable = start.reachable

/-- Every local variable that the instruction accesses lies below a limit. -/
def Fits (instruction : Instruction) (limit : Nat) : Prop :=
  ∀ bytes opcode slot, instruction = .plain bytes → accessed? bytes = some (opcode, slot) →
    slot + slotsOf opcode ≤ limit

def isCompact (opcode : Opcode) : Bool :=
  (Opcode.iload0 ≤ opcode && opcode < Opcode.iload0 + 20) ||
    (Opcode.istore0 ≤ opcode && opcode < Opcode.istore0 + 20)

def Clause.isCompact : Clause → Bool
  | plain mnemonic => (Opcode.ofMnemonic? mnemonic).any Assembler.isCompact
  | _ => false

structure Emits (clause : Clause) (piece : Piece) (effect : Int) (start state : Assembly)
    (pool : Pool) : Prop where
  pos : piece.pos = start.buffer.pc
  grows : Buffer.Grows (piece.instruction.spell piece.pos)
    (effect - piece.instruction.returnWidth) start.buffer state.buffer
  reaches : start.buffer.depth ≤ start.buffer.maxStack →
    start.buffer.depth + effect ≤ state.buffer.maxStack
  notes : Notes piece.fixups (start.buffer.depth + effect) start state
  blank : piece.Blank
  wellFormed : state.buffer.pc ≤ 2147483647 → piece.instruction.WellFormed
  measured : ∀ later, Pool.Extended pool later → later.Sound →
    piece.instruction.stackEffect? later = some effect
  said : ∀ place, clause.Says place (piece.filled place)
  fits : clause.isCompact = false → Fits piece.instruction state.buffer.maxLocals

def Issues (clause : Clause) (opcode : Opcode) (start state : Assembly) (pool : Pool) : Prop :=
  ∃ piece effect, Emits clause piece effect start state pool ∧ state.reachable = start.reachable ∧
    piece.instruction.fallsThrough = !opcode.endsFlow ∧ clause.endsFlow = opcode.endsFlow

def Writes (clause : Clause) (piece : Piece) (start state : Assembly) (pool : Pool) : Prop :=
  ∃ effect, Emits clause piece effect start state pool ∧
    piece.instruction.fallsThrough = !clause.endsFlow ∧
    state.reachable = (start.reachable && !clause.endsFlow)

variable {start state : Assembly} {pool : Pool} {bytes added : List UInt8} {fixups : List Fixup}
  {growth : Int} {opcode : Opcode}

def Ready (start state : Assembly) : Prop :=
  ∃ operands, state = { start with operands }

theorem Ready.operands (state : Assembly) (operands : List Token) (ready : Ready start state) :
    Ready start { state with operands } := by
  obtain ⟨_, rfl⟩ := ready
  exact ⟨operands, rfl⟩

theorem Ready.adds {buffer : Buffer} (ready : Ready start state)
    (grows : Buffer.Grows bytes growth state.buffer buffer) :
    Adds bytes [] growth start { state with buffer } := by
  obtain ⟨_, rfl⟩ := ready
  exact ⟨grows, ⟨fun _ => by simp [Assembly.label], by simp, rfl⟩, rfl⟩

theorem Adds.more {buffer : Buffer} (adds : Adds bytes fixups growth start state)
    (grows : Buffer.Grows added 0 state.buffer buffer) :
    Adds (bytes ++ added) fixups growth start { state with buffer } := by
  have grown := adds.grows.trans grows
  rw [add_zero] at grown
  exact ⟨grown, ⟨adds.notes.label, adds.notes.fixups, adds.notes.handlers⟩, adds.reachable⟩

end ClassSplice.Assembler
