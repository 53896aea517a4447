import ClassSplice.Proofs.Assembler.Standing

/-!
Listings that take more off the stack than there is. The mnemonic of an opcode is refused as soon as it
leaves the tracked depth below zero, and so assembling ends at its line. `store` takes a value off the
stack as well, and goes through whatever depth it leaves.

Main statement: `assemble_underflow`.
-/

namespace ClassSplice

open Code (Opcode)
open Descriptor (ValueKind)

namespace Code.Buffer

variable {buffer after : Buffer}

theorem growth_load (kind : ValueKind) : 0 ≤ Opcode.growth kind.loadOpcode ∧
    ∀ slot : Fin 4, 0 ≤ Opcode.growth (Opcode.iload0 + kind.family * 4 + UInt8.ofNat slot) := by
  cases kind <;> decide +kernel

theorem depth_addLoad {slot : Nat} {kind : ValueKind} (added : buffer.addLoad slot kind = .ok after) :
    buffer.depth ≤ after.depth := by
  obtain ⟨long, short⟩ := growth_load kind
  simp only [addLoad, addAccess] at added
  split at added
  · rename_i near
    cases added
    exact Int.le_add_of_nonneg_right (short ⟨slot, near⟩)
  · obtain ⟨middle, slotted, added⟩ := bind_eq_ok.1 added
    cases pure_eq_ok.1 added
    unfold addSlotted at slotted
    split at slotted
    · cases slotted
      exact Int.le_add_of_nonneg_right long
    · split at slotted
      · cases slotted
        exact Int.le_add_of_nonneg_right long
      · cases slotted

theorem growth_push : 0 ≤ Opcode.growth Opcode.bipush ∧ 0 ≤ Opcode.growth Opcode.sipush ∧
    0 ≤ Opcode.growth Opcode.ldc ∧ 0 ≤ Opcode.growth Opcode.ldcW ∧
    ∀ n : Fin 7, 0 ≤ Opcode.growth (UInt8.ofNat (Opcode.iconst0.toNat + (n - 1 : Int)).toNat) := by
  decide +kernel

theorem depth_addInteger {value : Int32} {pool pool' : Pool}
    (added : outcome (buffer.addInteger value) pool = (.ok after, pool')) :
    buffer.depth ≤ after.depth := by
  obtain ⟨byte, short, constant, wideConstant, compact⟩ := growth_push
  simp only [addInteger] at added
  split at added
  · rename_i inRange
    cases added
    have small := compact ⟨(value.toInt + 1).toNat, by omega⟩
    have same : ((value.toInt + 1).toNat : Int) - 1 = value.toInt := by omega
    rw [same] at small
    exact Int.le_add_of_nonneg_right small
  · split at added
    · cases added
      exact Int.le_add_of_nonneg_right byte
    · split at added
      · cases added
        exact Int.le_add_of_nonneg_right short
      · obtain ⟨index, _, _, added⟩ := outcome_bind_eq_ok.1 added
        obtain ⟨rfl, _⟩ := outcome_pure_eq_ok.1 added
        unfold addLdc
        split
        · exact Int.le_add_of_nonneg_right constant
        · exact Int.le_add_of_nonneg_right wideConstant

end Code.Buffer

theorem Code.Instruction.returnWidth_nonneg (instruction : Code.Instruction) :
    0 ≤ instruction.returnWidth := by
  unfold Code.Instruction.returnWidth
  split
  · split <;> decide
  · split <;> decide
  · exact Int.le_refl 0

namespace Assembler

open Code (Buffer)

variable {start state : Assembly} {pool pool' : Pool} {source : Statement}

def standIns : List String :=
  ["load", "store", "iconst", "local", "catch"]

def execute (mnemonic : String) : AssemblyM Unit :=
  match mnemonic with
  | "load" => moveVariable Buffer.addLoad
  | "store" => moveVariable Buffer.addStore
  | "iconst" => pushInteger
  | "local" => declareLocal
  | "catch" => declareHandler
  | _ =>
    match Opcode.ofMnemonic? mnemonic with
    | none => fail (.unknownInstruction mnemonic)
    | some opcode => operation opcode

/-- What a statement does, whatever depth and whatever operands it leaves. -/
def perform (source : Statement) : AssemblyM Unit := do
  modify fun state => { state with line := source.line }
  match ← placeLabels source.tokens with
  | [] => return
  | .quoted text :: _ => failSyntax (.foundQuoted "an instruction" text)
  | .word mnemonic :: operands =>
    modify fun state => { state with operands }
    execute mnemonic

/-- Do statements keep the depth to words of 32 bits? Where they do, the depth that is followed here is
the depth in words of 32 bits, none of whose sums overflow. -/
def depthsFit : List Statement → Assembly → Pool → Bool
  | [], _, _ => true
  | source :: sources, state, pool =>
    match outcome (perform source state) pool with
    | (.ok (_, performed), _) =>
      -- The highest depth counts what a statement puts on and takes off again, as `jsr` does.
      decide (-2147483648 ≤ performed.buffer.depth ∧ performed.buffer.maxStack ≤ 2147483647) &&
        match outcome (statement source state) pool with
        | (.ok (_, stated), pool') => depthsFit sources stated pool'
        | (.error _, _) => true
    | (.error _, _) => true

def Statement.mnemonic? (source : Statement) : Option String :=
  match (splitLabels source.tokens).2 with
  | .word mnemonic :: _ => some mnemonic
  | _ => none

def checkDepth (mnemonic : String) : AssemblyM Unit := do
  if mnemonic ∉ standIns then
    if (← get).buffer.depth < 0 then fail .stackUnderflow

theorem fail_bind {α β : Type} (cause : Cause) (rest : α → AssemblyM β) :
    (fail cause >>= rest) = fail cause :=
  rfl

theorem instruction_eq (mnemonic : String) : instruction mnemonic = (do
    execute mnemonic
    checkDepth mnemonic) := by
  unfold instruction checkDepth
  split
  · simp [execute, standIns]
  · simp [execute, standIns]
  · simp [execute, standIns]
  · simp [execute, standIns]
  · simp [execute, standIns]
  · rename_i notLoad notStore notIconst notLocal notCatch
    have other : mnemonic ∉ standIns := by
      simp only [standIns, List.mem_cons, List.not_mem_nil, or_false, not_or]
      exact ⟨notLoad, notStore, notIconst, notLocal, notCatch⟩
    rw [if_pos other]
    split
    · rename_i unknown
      simp only [execute, unknown, fail_bind]
    · rename_i opcode known
      simp only [execute, known]

theorem statement_eq (source : Statement) : statement source = (do
    perform source
    match source.mnemonic? with
    | none => return
    | some mnemonic =>
      checkDepth mnemonic
      finishOperands) := by
  unfold statement perform Statement.mnemonic?
  simp only [placeLabels_eq, bind_assoc, pure_bind, instruction_eq]
  rcases (splitLabels source.tokens).2 with _ | ⟨_ | _, _⟩
  · simp
  · simp
  · simp [failSyntax]

theorem yields_checkDepth {mnemonic : String} {value : Unit} :
    Yields (checkDepth mnemonic) start pool value state pool' ↔
      (mnemonic ∉ standIns → 0 ≤ start.buffer.depth) ∧ start = state ∧ pool = pool' := by
  unfold checkDepth
  split
  · rename_i other
    rw [yields_bind]
    constructor
    · rintro ⟨_, _, _, got, yields⟩
      obtain ⟨rfl, rfl, rfl⟩ := yields_get.1 got
      split at yields
      · exact absurd yields not_yields_fail
      · obtain ⟨_, same⟩ := yields_pure.1 yields
        exact ⟨fun _ => by omega, same⟩
    · rintro ⟨afloat, rfl, rfl⟩
      refine ⟨_, _, _, yields_get.2 ⟨rfl, rfl, rfl⟩, ?_⟩
      rw [if_neg (Int.not_lt.2 (afloat other))]
      exact yields_pure.2 ⟨rfl, rfl, rfl⟩
  · rename_i standIn
    rw [yields_pure]
    exact ⟨fun ⟨_, same⟩ => ⟨fun other => absurd other standIn, same⟩, fun ⟨_, same⟩ => ⟨rfl, same⟩⟩

theorem refused_checkDepth {mnemonic : String} (other : mnemonic ∉ standIns)
    (sinks : start.buffer.depth < 0) :
    outcome (checkDepth mnemonic start) pool = (.error ⟨start.line, .stackUnderflow⟩, pool) := by
  unfold checkDepth
  rw [if_pos other]
  show outcome ((if start.buffer.depth < 0 then fail .stackUnderflow else pure () : AssemblyM Unit) start)
    pool = _
  rw [if_pos sinks]
  rfl

/-- A statement goes through if what it does is done, all operands are used, and the mnemonic of an
opcode does not leave the depth below zero. -/
theorem yields_statement_iff {value : Unit} :
    Yields (statement source) start pool value state pool' ↔
      Yields (perform source) start pool () state pool' ∧ ∀ mnemonic, source.mnemonic? = some mnemonic →
        state.operands = [] ∧ (mnemonic ∉ standIns → 0 ≤ state.buffer.depth) := by
  rw [statement_eq, yields_bind]
  cases known : source.mnemonic? with
  | none =>
      constructor
      · rintro ⟨_, _, _, done, yields⟩
        obtain ⟨_, rfl, rfl⟩ := yields_pure.1 yields
        exact ⟨done, nofun⟩
      · rintro ⟨done, _⟩
        exact ⟨_, _, _, done, yields_pure.2 ⟨rfl, rfl, rfl⟩⟩
  | some mnemonic =>
      constructor
      · rintro ⟨_, _, _, done, yields⟩
        obtain ⟨_, _, _, checked, yields⟩ := yields_bind.1 yields
        obtain ⟨afloat, rfl, rfl⟩ := yields_checkDepth.1 checked
        obtain ⟨used, rfl, rfl⟩ := yields_finishOperands_iff.1 yields
        refine ⟨done, ?_⟩
        rintro _ ⟨⟩
        exact ⟨used, afloat⟩
      · rintro ⟨done, checks⟩
        obtain ⟨used, afloat⟩ := checks mnemonic rfl
        exact ⟨(), _, _, done, yields_bind.2 ⟨(), _, _, yields_checkDepth.2 ⟨afloat, rfl, rfl⟩,
          yields_finishOperands_iff.2 ⟨used, rfl, rfl⟩⟩⟩

def Afloat (state : Assembly) : Prop :=
  0 ≤ state.buffer.depth

theorem afloat_operands (state : Assembly) (operands : List Token) (afloat : Afloat state) :
    Afloat { state with operands } :=
  afloat

theorem afloat_load : Preserves Afloat (moveVariable Buffer.addLoad) := by
  unfold moveVariable
  refine Preserves.bind (preserves_nextWord afloat_operands _) fun name => Preserves.bind .get fun _ => ?_
  split
  · exact Preserves.fail
  · constructor
    intro state pool value state' pool' yields afloat
    obtain ⟨buffer, added, rfl, _⟩ := yields_emitChecked.1 yields
    exact Int.le_trans afloat (Buffer.depth_addLoad added)

theorem afloat_pushInteger : Preserves Afloat pushInteger := by
  unfold pushInteger
  refine Preserves.bind (preserves_nextInteger afloat_operands _ _ _) fun value => ⟨?_⟩
  intro state pool value state' pool' yields afloat
  obtain ⟨_, _, _, got, yields⟩ := yields_bind.1 yields
  obtain ⟨rfl, rfl, rfl⟩ := yields_get.1 got
  obtain ⟨buffer, _, _, spelled, yields⟩ := yields_bind.1 yields
  obtain ⟨added, rfl⟩ := yields_inPool.1 spelled
  obtain ⟨rfl, _⟩ := yields_modify.1 yields
  exact Int.le_trans afloat (Buffer.depth_addInteger added)

theorem afloat_declareLocal : Preserves Afloat declareLocal := by
  unfold declareLocal
  refine Preserves.bind (preserves_nextWord afloat_operands _) fun name => Preserves.ite .failSyntax ?_
  refine Preserves.bind (preserves_nextWord afloat_operands _) fun word => ?_
  refine Preserves.bind (preserves_typeOf word) fun type => ⟨?_⟩
  intro state pool value state' pool' yields afloat
  obtain ⟨rfl, _⟩ := yields_declared yields
  exact afloat

theorem afloat_declareHandler : Preserves Afloat declareHandler :=
  preserves_declareHandler afloat_operands fun _ _ _ afloat => afloat

theorem afloat_execute {mnemonic : String} (standIn : mnemonic ∈ standIns) (other : mnemonic ≠ "store") :
    Preserves Afloat (execute mnemonic) := by
  simp only [standIns, List.mem_cons, List.not_mem_nil, or_false] at standIn
  rcases standIn with rfl | rfl | rfl | rfl | rfl
  · exact afloat_load
  · exact absurd rfl other
  · exact afloat_pushInteger
  · exact afloat_declareLocal
  · exact afloat_declareHandler

structure Level (state : Assembly) : Prop where
  afloat : Afloat state
  labels : ∀ {name : String} {depth : Int}, (state.label name).pos = none →
    (state.label name).depth = some depth → 0 ≤ depth

theorem Level.places {name : String} (level : Level start) (places : Places name start state) :
    Level state where
  afloat := by
    rw [Afloat, places.depth]
    split
    · exact level.afloat
    · cases noted : (start.label name).depth with
      | none => exact level.afloat
      | some depth => exact level.labels places.fresh noted
  labels {other depth} unplaced noted := by
    rw [places.label] at unplaced noted
    split at unplaced
    · cases unplaced
    · rename_i different
      rw [if_neg different] at noted
      exact level.labels unplaced noted

theorem Level.lands {names : List String} (level : Level start) (lands : Lands names start state) :
    Level state := by
  induction lands with
  | nil => exact level
  | cons places _ ih => exact ih (level.places places)

theorem Level.met {name : String} {floor depth : Int} (level : Level start) (positive : 0 ≤ floor)
    (unplaced : (start.label name).pos = none)
    (noted : ((start.label name).met floor).depth = some depth) : 0 ≤ depth := by
  cases earlier : (start.label name).depth with
  | none =>
      rw [Label.met, earlier] at noted
      cases noted
      exact positive
  | some depth' =>
      rw [Label.met, earlier] at noted
      cases noted
      exact level.labels unplaced earlier

theorem Level.acts {clause : Clause} {pieces : List Piece} (level : Level start)
    (acts : Acts start pool clause pieces state) (afloat : Afloat state) : Level state where
  afloat := afloat
  labels {name depth} unplaced noted := by
    rw [acts.pos] at unplaced
    cases acts with
    | silent more => exact level.labels unplaced noted
    | handler =>
        change ((Assembly.setLabel _ _ _).label name).depth = _ at noted
        rw [label_setLabel] at noted
        split at noted
        · rename_i same
          subst same
          exact level.met Int.one_nonneg unplaced noted
        · exact level.labels unplaced noted
    | writes writes =>
        rename_i piece
        obtain ⟨effect, emits, _⟩ := writes
        rw [emits.notes.label] at noted
        split at noted
        -- A label that is named takes up the depth behind the branch, which was found afloat.
        · have behind := emits.grows.depth
          have width := piece.instruction.returnWidth_nonneg
          refine level.met ?_ unplaced noted
          rw [Afloat, behind] at afloat
          omega
        · exact level.labels unplaced noted

theorem Level.statement {value : Unit} (level : Level start)
    (yields : Yields (statement source) start pool value state pool') (afloat : Afloat state) :
    Level state := by
  obtain ⟨pieces, lands, acts⟩ := yields_statement yields
  have numbered : Level { start with line := source.line } := ⟨level.afloat, level.labels⟩
  exact (numbered.lands lands).acts acts afloat

theorem yields_perform {value : Unit} (yields : Yields (perform source) start pool value state pool') :
    ∃ landed, Lands source.labels { start with line := source.line } landed ∧
      landed.line = source.line ∧
      (source.mnemonic? = none ∧ landed = state ∨
        ∃ mnemonic operands, source.mnemonic? = some mnemonic ∧
          Yields (execute mnemonic) { landed with operands } pool () state pool') := by
  unfold perform at yields
  obtain ⟨_, _, _, numbered, yields⟩ := yields_bind.1 yields
  obtain ⟨rfl, rfl⟩ := yields_modify.1 numbered
  obtain ⟨rest, landed, _, placed, yields⟩ := yields_bind.1 yields
  have standing := (standing_placeLabels source.tokens).kept placed
    (show Standing start.scope source.line _ from ⟨rfl, rfl⟩)
  obtain ⟨lands, split, rfl⟩ := yields_placeLabels placed
  refine ⟨landed, lands, standing.2, ?_⟩
  unfold Statement.mnemonic?
  rw [← split]
  split at yields
  · obtain ⟨_, rfl, rfl⟩ := yields_pure.1 yields
    exact .inl ⟨rfl, rfl⟩
  · exact absurd yields not_yields_fail
  · rename_i mnemonic operands
    obtain ⟨_, _, _, given, yields⟩ := yields_bind.1 yields
    obtain ⟨rfl, rfl⟩ := yields_modify.1 given
    exact .inr ⟨mnemonic, operands, rfl, yields⟩

theorem mnemonic_of_sinks {value : Unit} (level : Level start)
    (yields : Yields (perform source) start pool value state pool') (sinks : state.buffer.depth < 0) :
    ∃ mnemonic, source.mnemonic? = some mnemonic ∧ (mnemonic ∈ standIns → mnemonic = "store") := by
  have numbered : Level { start with line := source.line } := ⟨level.afloat, level.labels⟩
  obtain ⟨landed, lands, _, ⟨_, rfl⟩ | ⟨mnemonic, operands, known, executed⟩⟩ := yields_perform yields
  · exact absurd (numbered.lands lands).afloat (Int.not_le.2 sinks)
  · refine ⟨mnemonic, known, fun standIn => ?_⟩
    by_contra other
    exact absurd ((afloat_execute standIn other).kept executed (numbered.lands lands).afloat)
      (Int.not_le.2 sinks)

theorem standing_execute {scope : Scope} {line : Nat} {mnemonic : String} (other : mnemonic ∉ standIns) :
    Preserves (Standing scope line) (execute mnemonic) := by
  unfold execute
  split
  · exact absurd (by simp [standIns]) other
  · exact absurd (by simp [standIns]) other
  · exact absurd (by simp [standIns]) other
  · exact absurd (by simp [standIns]) other
  · exact absurd (by simp [standIns]) other
  · split
    · exact Preserves.fail
    · exact standing_operation _

theorem refused_statement {value : Unit} {mnemonic : String} (known : source.mnemonic? = some mnemonic)
    (other : mnemonic ∉ standIns) (yields : Yields (perform source) start pool value state pool')
    (sinks : state.buffer.depth < 0) :
    outcome (statement source start) pool = (.error ⟨source.line, .stackUnderflow⟩, pool') := by
  obtain ⟨landed, _, line, ⟨none, _⟩ | ⟨_, operands, same, executed⟩⟩ := yields_perform yields
  · cases none.symm.trans known
  · cases same.symm.trans known
    have line' : state.line = source.line := ((standing_execute other).kept executed
      (show Standing landed.scope source.line _ from ⟨rfl, line⟩)).2
    rw [statement_eq, known]
    refine outcome_bind_eq_error.2 (.inr ⟨(value, state), pool', yields, ?_⟩)
    refine outcome_bind_eq_error.2 (.inl ?_)
    rw [← line']
    exact refused_checkDepth other sinks

/-- Statements in a row, each with the state that it leaves. -/
inductive Passes : Assembly → Pool → List (Statement × Assembly) → Assembly → Pool → Prop
  | done (state : Assembly) (pool : Pool) : Passes state pool [] state pool
  | step {start between state : Assembly} {pool middle last : Pool} {source : Statement}
      {steps : List (Statement × Assembly)}
      (yields : Yields (statement source) start pool () between middle)
      (rest : Passes between middle steps state last) :
      Passes start pool ((source, between) :: steps) state last

def NeverSinks (steps : List (Statement × Assembly)) : Prop :=
  ∀ step ∈ steps, Afloat step.2

variable {steps : List (Statement × Assembly)}

theorem passes_of_yields {sources : List Statement} {value : Unit}
    (yields : Yields (sources.forM statement) start pool value state pool') :
    ∃ steps, steps.map Prod.fst = sources ∧ Passes start pool steps state pool' := by
  induction sources generalizing start pool with
  | nil =>
      obtain ⟨_, rfl, rfl⟩ := yields_pure.1 yields
      exact ⟨[], rfl, .done _ _⟩
  | cons source sources ih =>
      obtain ⟨_, between, middle, first, yields⟩ := yields_bind.1 yields
      obtain ⟨steps, rfl, rest⟩ := ih yields
      exact ⟨(source, between) :: steps, rfl, .step first rest⟩

theorem Passes.level (passes : Passes start pool steps state pool') (level : Level start)
    (never : NeverSinks steps) : Level state := by
  induction passes with
  | done => exact level
  | step yields _ ih =>
      obtain ⟨afloat, never⟩ := List.forall_mem_cons.1 never
      exact ih (level.statement yields afloat) never

theorem Passes.split {front back : List (Statement × Assembly)}
    (passes : Passes start pool (front ++ back) state pool') :
    ∃ between middle, Passes start pool front between middle ∧
      Passes between middle back state pool' := by
  induction front generalizing start pool with
  | nil => exact ⟨start, pool, .done _ _, passes⟩
  | cons step front ih =>
      obtain _ | ⟨yields, rest⟩ := passes
      obtain ⟨between, middle, first, second⟩ := ih rest
      exact ⟨between, middle, .step yields first, second⟩

theorem Passes.afloat_of_opcode (passes : Passes start pool steps state pool') :
    ∀ step ∈ steps, ∀ mnemonic, step.1.mnemonic? = some mnemonic → mnemonic ∉ standIns →
      Afloat step.2 := by
  induction passes with
  | done => simp
  | step yields _ ih =>
      refine List.forall_mem_cons.2 ⟨fun mnemonic known other => ?_, ih⟩
      exact ((yields_statement_iff.1 yields).2 mnemonic known).2 other

theorem store_of_sinks {value : Unit} (level : Level start)
    (yields : Yields (statement source) start pool value state pool') (sinks : state.buffer.depth < 0) :
    source.mnemonic? = some "store" := by
  obtain ⟨performed, checks⟩ := yields_statement_iff.1 yields
  obtain ⟨mnemonic, known, standIn⟩ := mnemonic_of_sinks level performed sinks
  rw [known, standIn (by_contra fun other => ?_)]
  exact absurd ((checks mnemonic known).2 other) (Int.not_le.2 sinks)

theorem Passes.store_of_first (passes : Passes start pool steps state pool') (level : Level start)
    {front back : List (Statement × Assembly)} {after : Assembly}
    (split : steps = front ++ (source, after) :: back) (never : NeverSinks front)
    (sinks : after.buffer.depth < 0) : source.mnemonic? = some "store" := by
  subst split
  obtain ⟨between, middle, first, _ | ⟨yields, _⟩⟩ := passes.split
  exact store_of_sinks (first.level level never) yields sinks

theorem Passes.neverSinks (passes : Passes start pool steps state pool') (level : Level start)
    (stores : ∀ step ∈ steps, step.1.mnemonic? = some "store" → Afloat step.2) : NeverSinks steps := by
  induction passes with
  | done => exact List.forall_mem_nil _
  | step yields _ ih =>
      obtain ⟨here, stores⟩ := List.forall_mem_cons.1 stores
      -- What sinks from a level state is a `store`, and these are afloat.
      have afloat := by_contra fun sinks =>
        sinks (here (store_of_sinks level yields (Int.not_le.1 sinks)))
      exact List.forall_mem_cons.2 ⟨afloat, ih (level.statement yields afloat) stores⟩

theorem Passes.refused {last : Pool} {error : Fault}
    (passes : Passes start pool steps state pool')
    (refused : outcome (statement source state) pool' = (.error error, last))
    (sources : List Statement) :
    outcome ((steps.map Prod.fst ++ source :: sources).forM statement start) pool =
      (.error error, last) := by
  induction passes with
  | done => exact outcome_bind_eq_error.2 (.inl refused)
  | step yields _ ih => exact outcome_bind_eq_error.2 (.inr ⟨_, _, yields, ih refused⟩)

section Assemble

variable {text : String} {scope : Scope} {buffer : Buffer} {sources : List Statement}

theorem passes_of_assemble {assembled : Scope × Buffer} (split : statements text = .ok sources)
    (done : outcome (assemble text scope buffer) pool = (.ok assembled, pool')) :
    ∃ steps state middle, steps.map Prod.fst = sources ∧
      Passes { scope, buffer } pool steps state middle := by
  obtain ⟨_, _, split', run, _⟩ := outcome_assemble_eq_ok.1 done
  cases split.symm.trans split'
  unfold assembleAll at run
  obtain ⟨_, state, middle, stated, _⟩ := yields_bind.1 run
  obtain ⟨steps, same, passes⟩ := passes_of_yields stated
  exact ⟨steps, state, middle, same, passes⟩

theorem refused_assemble {error : Fault} (split : statements text = .ok sources)
    (refused : outcome (sources.forM statement { scope, buffer }) pool = (.error error, pool')) :
    outcome (assemble text scope buffer) pool = (.error error, pool') := by
  unfold assemble
  rw [split]
  refine outcome_bind_eq_error.2 (.inr ⟨sources, pool, rfl, ?_⟩)
  refine outcome_bind_eq_error.2 (.inl ?_)
  show outcome (assembleAll sources { scope, buffer }) pool = _
  unfold assembleAll
  exact outcome_bind_eq_error.2 (.inl refused)

/-- Where a listing goes through, opcodes leave the depth at zero or above, and nothing but a `store`
is the first to leave it below. Where something else would be, assembling ends there. A `store` goes
through whatever depth it leaves. This is about listings whose depths are words of 32 bits. -/
theorem assemble_underflow (split : statements text = .ok sources) (starts : 0 ≤ buffer.depth) :
    (∀ {assembled : Scope × Buffer} {pool pool' : Pool},
      depthsFit sources { scope, buffer } pool = true →
      outcome (assemble text scope buffer) pool = (.ok assembled, pool') →
      ∃ steps state middle, steps.map Prod.fst = sources ∧
        Passes { scope, buffer } pool steps state middle ∧
        (∀ step ∈ steps, ∀ mnemonic, step.1.mnemonic? = some mnemonic → mnemonic ∉ standIns →
          0 ≤ step.2.buffer.depth) ∧
        (∀ front source after back, steps = front ++ (source, after) :: back → NeverSinks front →
          after.buffer.depth < 0 → source.mnemonic? = some "store") ∧
        ((∀ step ∈ steps, step.1.mnemonic? = some "store" → 0 ≤ step.2.buffer.depth) →
          NeverSinks steps)) ∧
    ∀ {steps : List (Statement × Assembly)} {source : Statement} {back : List Statement}
      {before after : Assembly} {pool middle last : Pool},
      depthsFit sources { scope, buffer } pool = true →
      sources = steps.map Prod.fst ++ source :: back →
      Passes { scope, buffer } pool steps before middle → NeverSinks steps →
      Yields (perform source) before middle () after last → after.buffer.depth < 0 →
      (source.mnemonic? ≠ some "store" →
        outcome (assemble text scope buffer) pool = (.error ⟨source.line, .stackUnderflow⟩, last)) ∧
      (source.mnemonic? = some "store" → after.operands = [] →
        Yields (statement source) before middle () after last) := by
  have level : Level { scope, buffer } := by
    refine ⟨starts, fun _ noted => ?_⟩
    simp [Assembly.label] at noted
  refine ⟨fun _ done => ?_, fun _ listed passes never performed sinks =>
    ⟨fun other => ?_, fun store used => ?_⟩⟩
  · obtain ⟨steps, state, middle, same, passes⟩ := passes_of_assemble split done
    exact ⟨steps, state, middle, same, passes, passes.afloat_of_opcode,
      fun _ _ _ _ listed => passes.store_of_first level listed, passes.neverSinks level⟩
  · obtain ⟨mnemonic, known, standIn⟩ := mnemonic_of_sinks (passes.level level never) performed sinks
    have opcode : mnemonic ∉ standIns := fun among => other (by rw [known, standIn among])
    subst listed
    exact refused_assemble split
      (passes.refused (refused_statement known opcode performed sinks) _)
  · refine yields_statement_iff.2 ⟨performed, fun mnemonic known => ⟨used, fun opcode => ?_⟩⟩
    cases known.symm.trans store
    exact absurd (by simp [standIns]) opcode

theorem perform_pop : Yields (perform ⟨1, [.word "pop"]⟩) { scope := [], buffer := .empty 0 0 } .empty ()
    { scope := [], buffer := (Buffer.empty 0 0).addOpcode Opcode.pop } .empty := by
  have unplaced : placedLabel? "pop" = none := by cbv
  have known : Opcode.ofMnemonic? "pop" = some Opcode.pop := by cbv
  unfold perform
  simp only [placeLabels, unplaced, pure_bind, execute, known]
  rfl

def storeScope : Scope :=
  [("$1", ⟨0, .base .int⟩)]

theorem perform_store : Yields (perform ⟨1, [.word "store", .word "$1"]⟩)
    { scope := storeScope, buffer := .empty 0 0 } .empty ()
    { scope := storeScope
      buffer := ((Buffer.empty 0 0).addOpcode Opcode.istore0).reserveLocals 1 } .empty := by
  have unplaced : placedLabel? "store" = none := by cbv
  unfold perform
  simp only [placeLabels, unplaced, pure_bind, execute]
  rfl

theorem assemble_underflow_pop :
    outcome (assemble "pop" [] (.empty 0 0)) .empty = (.error ⟨1, .stackUnderflow⟩, .empty) ∧
    ∃ state, Yields (statement ⟨1, [.word "store", .word "$1"]⟩)
      { scope := storeScope, buffer := .empty 0 0 } .empty () state .empty ∧
      state.buffer.depth < 0 := by
  have pop : statements "pop" = .ok [⟨1, [.word "pop"]⟩] := by cbv
  have store : statements "store $1" = .ok [⟨1, [.word "store", .word "$1"]⟩] := by cbv
  have popped : ((Buffer.empty 0 0).addOpcode Opcode.pop).depth < 0 := by decide +kernel
  have stored : (((Buffer.empty 0 0).addOpcode Opcode.istore0).reserveLocals 1).depth < 0 := by
    decide +kernel
  have opcode : (Statement.mk 1 [.word "pop"]).mnemonic? = some "pop" := by decide +kernel
  have standIn : (Statement.mk 1 [.word "store", .word "$1"]).mnemonic? = some "store" := by
    decide +kernel
  have starts : 0 ≤ (Buffer.empty 0 0).depth := Int.le_refl 0
  constructor
  · obtain ⟨_, refuses⟩ := assemble_underflow pop starts
    have fits : depthsFit [⟨1, [.word "pop"]⟩] { scope := [], buffer := .empty 0 0 } .empty = true := by
      decide +kernel
    have refused := (refuses fits rfl (.done _ _) (List.forall_mem_nil _) perform_pop popped).1
    exact refused (by rw [opcode]; decide)
  · obtain ⟨_, ignores⟩ := assemble_underflow store starts
    have fits : depthsFit [⟨1, [.word "store", .word "$1"]⟩]
        { scope := storeScope, buffer := .empty 0 0 } .empty = true := by
      decide +kernel
    have ignored := (ignores fits rfl (.done _ _) (List.forall_mem_nil _) perform_store stored).2
    exact ⟨_, ignored standIn rfl, stored⟩

end Assemble

end Assembler
end ClassSplice
