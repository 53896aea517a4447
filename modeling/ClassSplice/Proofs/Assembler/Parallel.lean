import ClassSplice.Proofs.Assembler.Steps
import ClassSplice.Proofs.Code.Onto

/-!
Two runs of assembly next to each other, which differ in where the code starts and in how lines are
counted. Steps are parallel that do the same in both as long as the states are alike, and the rules
for it follow the monad and its loops.
-/

namespace ClassSplice.Assembler

open Code (Buffer)

/-- How the second of two runs differs: it stands behind more code, and lines are counted otherwise. -/
structure Shift where
  front : Buffer
  lines : Nat → Nat → Prop

def Label.moved (offset : Nat) (label : Label) : Label :=
  { label with pos := label.pos.map (offset + ·) }

/-- The same cause for code that starts at `offset`: only an empty range of a handler names places. -/
def Cause.moved (offset : Nat) : Cause → Cause
  | .encoding (.badHandlers (.emptyRange start stop)) =>
    .encoding (.badHandlers (.emptyRange (offset + start) (offset + stop)))
  | cause => cause

@[simp] theorem Cause.moved_zero (cause : Cause) : cause.moved 0 = cause := by
  unfold moved
  split
  · simp only [Nat.zero_add]
  · rfl

def Placeless (error : Error) : Prop :=
  ∀ offset, (Cause.encoding error).moved offset = .encoding error

namespace Shift

abbrev Offsets (shift : Shift) (one other : Nat) : Prop :=
  other = shift.front.pc + one

abbrev Buffers (shift : Shift) (one other : Buffer) : Prop :=
  other = one.onto shift.front

structure Fixups (shift : Shift) (one other : Fixup) : Prop where
  line : shift.lines one.line other.line
  label : other.label = one.label
  origin : shift.Offsets one.origin other.origin
  pos : shift.Offsets one.pos other.pos
  isWide : other.isWide = one.isWide

structure Handlers (shift : Shift) (one other : PendingHandler) : Prop where
  line : shift.lines one.line other.line
  start : other.start = one.start
  stop : other.stop = one.stop
  target : other.target = one.target
  catchType : other.catchType = one.catchType

structure Statements (shift : Shift) (one other : Statement) : Prop where
  line : shift.lines one.line other.line
  tokens : other.tokens = one.tokens

structure Faults (shift : Shift) (one other : Fault) : Prop where
  line : shift.lines one.line other.line
  cause : other.cause = one.cause.moved shift.front.pc

/-- Two listings split into the same statements, or neither of them splits. -/
inductive Splits (shift : Shift) :
    Except Fault (List Statement) → Except Fault (List Statement) → Prop
  | ok {sources sources' : List Statement} (same : List.Forall₂ shift.Statements sources sources') :
      Splits shift (.ok sources) (.ok sources')
  | error {fault fault' : Fault} (faults : shift.Faults fault fault') :
      Splits shift (.error fault) (.error fault')

structure Alike (shift : Shift) (one other : Assembly) : Prop where
  scope : other.scope = one.scope
  buffer : shift.Buffers one.buffer other.buffer
  labels : ∀ name, other.label name = (one.label name).moved shift.front.pc
  fixups : List.Forall₂ shift.Fixups one.fixups.toList other.fixups.toList
  handlers : List.Forall₂ shift.Handlers one.handlers.toList other.handlers.toList
  reachable : other.reachable = one.reachable
  operands : other.operands = one.operands

structure Settled (shift : Shift) (one other : Assembly) : Prop extends shift.Alike one other where
  room : shift.front.pc = 0 ∨
    ∀ name pos, (one.label name).pos = some pos → shift.front.pc + pos ≤ 65535

structure InStep (shift : Shift) (related : Assembly → Assembly → Prop) (one other : Assembly) :
    Prop where
  related : related one other
  line : shift.lines one.line other.line

/-- Both outcomes are values, in states that are related, or both are faults. -/
inductive Agree {α β : Type} (shift : Shift) (related : Assembly → Assembly → Prop)
    (values : α → β → Prop) :
    Except Fault (α × Assembly) × Pool → Except Fault (β × Assembly) × Pool → Prop
  | ok {value : α} {value' : β} {state state' : Assembly} {pool : Pool} (same : values value value')
      (alike : related state state') : Agree shift related values (.ok (value, state), pool)
        (.ok (value', state'), pool)
  | error {fault fault' : Fault} {pool : Pool} (faults : shift.Faults fault fault') :
      Agree shift related values (.error fault, pool) (.error fault', pool)

structure Parallel {α β : Type} (shift : Shift) (related : Assembly → Assembly → Prop)
    (values : α → β → Prop) (one : AssemblyM α) (other : AssemblyM β) : Prop where
  agree : ∀ {state state' : Assembly} (pool : Pool), related state state' →
    shift.Agree related values (outcome (one state) pool) (outcome (other state') pool)

abbrev Respects {α : Type} (shift : Shift) (step : AssemblyM α) : Prop :=
  shift.Parallel (shift.InStep shift.Alike) Eq step step

end Shift

variable {α β γ δ : Type} {shift : Shift} {related : Assembly → Assembly → Prop}

theorem outcome_step_bind (step : AssemblyM α) (rest : α → AssemblyM β) (state : Assembly)
    (pool : Pool) : outcome ((step >>= rest) state) pool = match outcome (step state) pool with
      | (.ok (value, middle), pool') => outcome (rest value middle) pool'
      | (.error fault, pool') => (.error fault, pool') := by
  show outcome (step state >>= fun made => rest made.1 made.2) pool = _
  rw [outcome_bind]
  rcases outcome (step state) pool with ⟨fault | ⟨value, middle⟩, pool'⟩
  · rfl
  · rfl

theorem refused_bind {step : AssemblyM α} {rest : α → AssemblyM β} {state middle : Assembly}
    {pool pool₁ pool' : Pool} {fault : Fault} (value : α)
    (yields : Yields step state pool value middle pool₁)
    (refused : outcome (rest value middle) pool₁ = (.error fault, pool')) :
    outcome ((step >>= rest) state) pool = (.error fault, pool') := by
  unfold Yields at yields
  rw [outcome_step_bind, yields]
  exact refused

namespace Shift.Agree

variable {values : α → β → Prop} {one : Except Fault (α × Assembly) × Pool}
  {other : Except Fault (β × Assembly) × Pool}

theorem weaken {related' : Assembly → Assembly → Prop} (agree : shift.Agree related values one other)
    (weaker : ∀ {state state'}, related state state' → related' state state') :
    shift.Agree related' values one other := by
  cases agree with
  | ok same alike => exact .ok same (weaker alike)
  | error faults => exact .error faults

end Shift.Agree

namespace Shift.Parallel

variable {values : α → β → Prop} {values' : γ → δ → Prop}

theorem bind {one : AssemblyM α} {other : AssemblyM β} {rest : α → AssemblyM γ}
    {rest' : β → AssemblyM δ}
    (first : shift.Parallel related values one other)
    (second : ∀ value value', values value value' →
      shift.Parallel related values' (rest value) (rest' value')) :
    shift.Parallel related values' (one >>= rest) (other >>= rest') := by
  constructor
  intro state state' pool alike
  rw [outcome_step_bind, outcome_step_bind]
  have agree := first.agree pool alike
  generalize outcome (one state) pool = result at agree ⊢
  generalize outcome (other state') pool = result' at agree ⊢
  cases agree with
  | ok same alike => exact (second _ _ same).agree _ alike
  | error faults => exact .error faults

theorem next {one other : AssemblyM α} {rest : α → AssemblyM γ} {rest' : α → AssemblyM δ}
    (first : shift.Parallel related Eq one other)
    (second : ∀ value, shift.Parallel related values' (rest value) (rest' value)) :
    shift.Parallel related values' (one >>= rest) (other >>= rest') := by
  refine first.bind fun value value' same => ?_
  rw [← same]
  exact second value

theorem pure {value : α} {value' : β} (same : values value value') :
    shift.Parallel related values (pure value) (pure value') :=
  ⟨fun _ alike => .ok same alike⟩

theorem get_bind {rest : Assembly → AssemblyM γ} {rest' : Assembly → AssemblyM δ}
    (second : ∀ state state', related state state' →
      shift.Parallel related values' (rest state) (rest' state')) :
    shift.Parallel related values' (get >>= rest) (get >>= rest') := by
  constructor
  intro state state' pool alike
  exact (second state state' alike).agree pool alike

theorem modify {change change' : Assembly → Assembly}
    (kept : ∀ state state', related state state' → related (change state) (change' state')) :
    shift.Parallel related Eq (modify change : AssemblyM PUnit) (modify change') :=
  ⟨fun _ alike => .ok rfl (kept _ _ alike)⟩

theorem set {state state' : Assembly} (kept : related state state') :
    shift.Parallel related Eq (set state : AssemblyM PUnit) (set state') :=
  ⟨fun _ _ => .ok rfl kept⟩

theorem fail {cause : Cause} (stays : cause.moved shift.front.pc = cause) :
    shift.Parallel (shift.InStep related) values (fail cause) (fail cause) :=
  ⟨fun _ alike => .error ⟨alike.line, stays.symm⟩⟩

theorem failSyntax (fault : SyntaxFault) :
    shift.Parallel (shift.InStep related) values (failSyntax fault) (failSyntax fault) :=
  fail rfl

theorem ite {condition : Prop} [Decidable condition] {one one' : AssemblyM α}
    {other other' : AssemblyM β}
    (holding : condition → shift.Parallel related values one other)
    (failing : ¬ condition → shift.Parallel related values one' other') :
    shift.Parallel related values (if condition then one else one')
      (if condition then other else other') := by
  split
  · exact holding ‹_›
  · exact failing ‹_›

theorem forM {related' : α → β → Prop} {step : α → AssemblyM PUnit} {step' : β → AssemblyM PUnit}
    {items : List α} {items' : List β} (same : List.Forall₂ related' items items')
    (each : ∀ item item', item ∈ items → related' item item' →
      shift.Parallel related Eq (step item) (step' item')) :
    shift.Parallel related Eq (items.forM step) (items'.forM step') := by
  induction same with
  | nil => exact pure rfl
  | cons first _ ih =>
      refine next (each _ _ List.mem_cons_self first) fun _ => ih fun item item' member => ?_
      exact each item item' (List.mem_cons_of_mem _ member)

theorem forM_same {step step' : α → AssemblyM PUnit}
    (each : ∀ item, shift.Parallel related Eq (step item) (step' item)) (items : List α) :
    shift.Parallel related Eq (items.forM step) (items.forM step') := by
  refine forM (List.forall₂_same.2 fun _ _ => rfl) fun item item' _ same => ?_
  rw [← same]
  exact each item

theorem forArray {related' : α → β → Prop} {step : α → AssemblyM PUnit} {step' : β → AssemblyM PUnit}
    {items : Array α} {items' : Array β} (same : List.Forall₂ related' items.toList items'.toList)
    (each : ∀ item item', related' item item' → shift.Parallel related Eq (step item) (step' item')) :
    shift.Parallel related Eq (items.forM step) (items'.forM step') := by
  have folded {list : List α} {list' : List β} (same : List.Forall₂ related' list list') :
      shift.Parallel related Eq (list.foldlM (fun _ => step) ⟨⟩) (list'.foldlM (fun _ => step') ⟨⟩) := by
    induction same with
    | nil => exact pure rfl
    | cons first _ ih =>
        rw [List.foldlM_cons, List.foldlM_cons]
        exact next (each _ _ first) fun _ => ih
  unfold Array.forM
  rw [← Array.foldlM_toList, ← Array.foldlM_toList]
  exact folded same

end Shift.Parallel

theorem Shift.parallel_numbered {values : α → β → Prop} {line line' : Nat} {one : AssemblyM α}
    {other : AssemblyM β} (lines : shift.lines line line')
    (kept : ∀ {state state' : Assembly}, related state state' →
      related { state with line } { state' with line := line' })
    (inner : shift.Parallel (shift.InStep related) values one other) :
    shift.Parallel related values (do modify fun state => { state with line }; one)
      (do modify fun state => { state with line := line' }; other) := by
  constructor
  intro state state' pool alike
  have agree := inner.agree pool ⟨kept alike, lines⟩
  exact agree.weaken fun inStep => inStep.related

end ClassSplice.Assembler
