import ClassSplice.Assembler.Basic
import ClassSplice.Proofs.Code.Buffer

namespace ClassSplice.Assembler

variable {α β : Type} {state state' : Assembly} {pool pool' : Pool}

def Yields (step : AssemblyM α) (state : Assembly) (pool : Pool) (value : α) (state' : Assembly)
    (pool' : Pool) : Prop :=
  outcome (step state) pool = (.ok (value, state'), pool')

theorem yields_bind {step : AssemblyM α} {rest : α → AssemblyM β} {value : β} :
    Yields (step >>= rest) state pool value state' pool' ↔
      ∃ first middle pool₁, Yields step state pool first middle pool₁ ∧
        Yields (rest first) middle pool₁ value state' pool' := by
  show outcome (step state >>= fun made => rest made.1 made.2) pool = _ ↔ _
  rw [outcome_bind_eq_ok]
  constructor
  · rintro ⟨⟨first, middle⟩, pool₁, done, further⟩
    exact ⟨first, middle, pool₁, done, further⟩
  · rintro ⟨first, middle, pool₁, done, further⟩
    exact ⟨(first, middle), pool₁, done, further⟩

theorem yields_pure {first value : α} :
    Yields (pure first) state pool value state' pool' ↔
      first = value ∧ state = state' ∧ pool = pool' := by
  show (Except.ok (first, state), pool) = _ ↔ _
  simp [and_assoc]

theorem yields_get {value : Assembly} :
    Yields get state pool value state' pool' ↔ state = value ∧ state = state' ∧ pool = pool' := by
  show (Except.ok (state, state), pool) = _ ↔ _
  simp [and_assoc]

theorem yields_set {next : Assembly} {value : PUnit} :
    Yields (set next) state pool value state' pool' ↔ next = state' ∧ pool = pool' := by
  show (Except.ok (PUnit.unit, next), pool) = _ ↔ _
  simp

theorem yields_modify {change : Assembly → Assembly} {value : PUnit} :
    Yields (modify change) state pool value state' pool' ↔ change state = state' ∧ pool = pool' := by
  show (Except.ok (PUnit.unit, change state), pool) = _ ↔ _
  simp

theorem not_yields_fail {cause : Cause} {value : α} :
    ¬ Yields (fail cause) state pool value state' pool' := by
  show ¬ (Except.error _, pool) = _
  simp

theorem yields_encoded {result : Except Error α} {value : α} :
    Yields (encoded result) state pool value state' pool' ↔
      result = .ok value ∧ state = state' ∧ pool = pool' := by
  cases result with
  | ok found => exact yields_pure.trans (by rw [Except.ok.injEq])
  | error error =>
      constructor
      · intro yields
        exact absurd yields not_yields_fail
      · rintro ⟨⟨⟩, _⟩

theorem yields_inPool {change : PoolM α} {value : α} :
    Yields (inPool change) state pool value state' pool' ↔
      outcome change pool = (.ok value, pool') ∧ state = state' := by
  unfold Yields outcome inPool
  rcases change pool with ⟨error | found, pool₁⟩
  · constructor
    · rintro ⟨⟩
    · rintro ⟨⟨⟩, _⟩
  · constructor
    · rintro ⟨⟩
      exact ⟨rfl, rfl⟩
    · rintro ⟨⟨⟩, rfl⟩
      rfl

theorem yields_emitChecked {change : Code.Buffer → Except Error Code.Buffer} {value : PUnit} :
    Yields (emitChecked change) state pool value state' pool' ↔
      ∃ buffer, change state.buffer = .ok buffer ∧ { state with buffer } = state' ∧ pool = pool' := by
  simp only [emitChecked, yields_bind, yields_get, yields_encoded, yields_modify]
  constructor
  · rintro ⟨_, _, _, ⟨rfl, rfl, rfl⟩, buffer, _, _, ⟨changed, rfl, rfl⟩, rfl, rfl⟩
    exact ⟨buffer, changed, rfl, rfl⟩
  · rintro ⟨buffer, changed, rfl, rfl⟩
    exact ⟨_, _, _, ⟨rfl, rfl, rfl⟩, buffer, _, _, ⟨changed, rfl, rfl⟩, rfl, rfl⟩

theorem Scope.declare_eq_ok {scope scope' : Scope} {buffer buffer' : Code.Buffer} {name : String}
    {type : Descriptor.FieldType} {slot : Nat} :
    scope.declare buffer name type = .ok (slot, scope', buffer') ↔
      buffer.maxLocals + type.width < wordLimit ∧ slot = buffer.maxLocals ∧
        scope' = scope.bind name ⟨buffer.maxLocals, type⟩ ∧
        buffer' = { buffer with maxLocals := buffer.maxLocals + type.width } := by
  unfold Scope.declare
  constructor
  · intro declared
    obtain ⟨⟨_, _⟩, allocated, declared⟩ := bind_eq_ok.1 declared
    obtain ⟨fits, rfl, rfl⟩ := Code.Buffer.allocateLocal_eq_ok.1 allocated
    cases pure_eq_ok.1 declared
    exact ⟨fits, rfl, rfl, rfl⟩
  · rintro ⟨fits, rfl, rfl, rfl⟩
    rw [Code.Buffer.allocateLocal_eq_ok.2 ⟨fits, rfl, rfl⟩]
    rfl

theorem yields_declared {name : String} {type : Descriptor.FieldType} {value : PUnit}
    (yields : Yields (do
      let state ← get
      let (_, scope, buffer) ← encoded (state.scope.declare state.buffer name type)
      set { state with scope, buffer }) state pool value state' pool') :
    { state with
      scope := state.scope.bind name ⟨state.buffer.maxLocals, type⟩
      buffer := { state.buffer with
        maxLocals := state.buffer.maxLocals + type.width } } = state' ∧ pool = pool' := by
  obtain ⟨_, _, _, got, yields⟩ := yields_bind.1 yields
  obtain ⟨rfl, rfl, rfl⟩ := yields_get.1 got
  obtain ⟨⟨slot, scope, buffer⟩, _, _, made, yields⟩ := yields_bind.1 yields
  obtain ⟨declared, rfl, rfl⟩ := yields_encoded.1 made
  obtain ⟨_, rfl, rfl, rfl⟩ := Scope.declare_eq_ok.1 declared
  exact yields_set.1 yields

theorem outcome_assemble_eq_ok {source : String} {scope scope' : Scope}
    {buffer buffer' : Code.Buffer} :
    outcome (assemble source scope buffer) pool = (.ok (scope', buffer'), pool') ↔
      ∃ sources state, statements source = .ok sources ∧
        Yields (assembleAll sources) { scope, buffer } pool () state pool' ∧
        state.scope = scope' ∧ state.buffer = buffer' := by
  unfold assemble
  constructor
  · intro assembled
    split at assembled
    · rename_i sources split
      obtain ⟨_, _, chosen, assembled⟩ := outcome_bind_eq_ok.1 assembled
      obtain ⟨rfl, rfl⟩ := outcome_pure_eq_ok.1 chosen
      obtain ⟨⟨_, state⟩, _, run, assembled⟩ := outcome_bind_eq_ok.1 assembled
      obtain ⟨same, rfl⟩ := outcome_pure_eq_ok.1 assembled
      cases same
      exact ⟨sources, state, split, run, rfl, rfl⟩
    · obtain ⟨_, _, failed, _⟩ := outcome_bind_eq_ok.1 assembled
      exact absurd failed outcome_throw_ne_ok
  · rintro ⟨sources, state, split, run, rfl, rfl⟩
    rw [split]
    exact outcome_bind_eq_ok.2 ⟨_, _, rfl, outcome_bind_eq_ok.2 ⟨((), state), _, run, rfl⟩⟩

/-- What a handler is declared by behind the class that it catches. -/
def handlerRange (catchType : Pool.Index) : AssemblyM Unit := do
  keyword "from"
  let start ← nextWord "label"
  keyword "to"
  let stop ← nextWord "label"
  keyword "using"
  let target ← nextWord "label"
  expectDepth target 1
  modify fun state =>
    let handler := { line := state.line, start, stop, target, catchType }
    { state with handlers := state.handlers.push handler }

theorem declareHandler_eq : declareHandler = (do
    let caught ← nextWord "exception class"
    let catchType ← if caught = "any" then pure 0 else classConstant caught
    handlerRange catchType) :=
  rfl

structure Preserves (holds : Assembly → Prop) (step : AssemblyM α) : Prop where
  kept : ∀ {state pool value state' pool'}, Yields step state pool value state' pool' →
    holds state → holds state'

namespace Preserves

variable {holds : Assembly → Prop}

theorem bind {step : AssemblyM α} {rest : α → AssemblyM β} (first : Preserves holds step)
    (second : ∀ value, Preserves holds (rest value)) : Preserves holds (step >>= rest) := by
  constructor
  intro state pool value state' pool' yields initial
  obtain ⟨_, _, _, done, further⟩ := yields_bind.1 yields
  exact (second _).kept further (first.kept done initial)

theorem pure (value : α) : Preserves holds (pure value) := by
  constructor
  intro state pool value state' pool' yields initial
  obtain ⟨_, rfl, _⟩ := yields_pure.1 yields
  exact initial

theorem get : Preserves holds get := by
  constructor
  intro state pool value state' pool' yields initial
  obtain ⟨_, rfl, _⟩ := yields_get.1 yields
  exact initial

theorem fail {cause : Cause} : Preserves holds (fail cause : AssemblyM α) := by
  constructor
  intro state pool value state' pool' yields
  exact absurd yields not_yields_fail

theorem failSyntax {fault : SyntaxFault} : Preserves holds (failSyntax fault : AssemblyM α) :=
  fail

theorem inPool {change : PoolM α} : Preserves holds (inPool change) := by
  constructor
  intro state pool value state' pool' yields initial
  obtain ⟨_, rfl⟩ := yields_inPool.1 yields
  exact initial

theorem modify {change : Assembly → Assembly} (kept : ∀ state, holds state → holds (change state)) :
    Preserves holds (modify change : AssemblyM PUnit) := by
  constructor
  intro state pool value state' pool' yields initial
  obtain ⟨rfl, _⟩ := yields_modify.1 yields
  exact kept _ initial

theorem forArray {step : α → AssemblyM PUnit} {items : Array α}
    (each : ∀ item ∈ items, Preserves holds (step item)) : Preserves holds (items.forM step) := by
  have folded (list : List α) (each : ∀ item ∈ list, Preserves holds (step item)) :
      Preserves holds (list.foldlM (fun _ => step) ⟨⟩) := by
    induction list with
    | nil => exact pure _
    | cons item list ih =>
        rw [List.foldlM_cons]
        apply bind (each item List.mem_cons_self)
        intro _
        apply ih
        intro item member
        exact each item (List.mem_cons_of_mem _ member)
  unfold Array.forM
  rw [← Array.foldlM_toList]
  apply folded
  intro item member
  exact each item (Array.mem_toList_iff.1 member)

end Preserves

section Operands

variable {holds : Assembly → Prop}
  (stable : ∀ state operands, holds state → holds { state with operands })

include stable

theorem preserves_nextOperand (what : String) : Preserves holds (nextOperand what) := by
  unfold nextOperand
  apply Preserves.bind Preserves.get
  intro state
  split
  · exact Preserves.failSyntax
  · apply Preserves.bind (Preserves.modify fun state => stable state _)
    intro _
    exact Preserves.pure _

theorem preserves_nextWord (what : String) : Preserves holds (nextWord what) := by
  unfold nextWord
  apply Preserves.bind (preserves_nextOperand stable what)
  intro token
  split
  · exact Preserves.pure _
  · exact Preserves.failSyntax

theorem preserves_nextInteger (what : String) (low high : Int) :
    Preserves holds (nextInteger what low high) := by
  unfold nextInteger
  apply Preserves.bind (preserves_nextWord stable what)
  intro word
  split
  · split
    · exact Preserves.pure _
    · exact Preserves.failSyntax
  · exact Preserves.failSyntax

theorem preserves_nextByte (what : String) : Preserves holds (nextByte what) := by
  unfold nextByte
  apply Preserves.bind (preserves_nextInteger stable what _ _)
  intro value
  exact Preserves.pure _

theorem preserves_nextMember (what : String) : Preserves holds (nextMember what) := by
  unfold nextMember
  apply Preserves.bind (preserves_nextWord stable what)
  intro word
  split
  · exact Preserves.pure _
  · exact Preserves.failSyntax

theorem preserves_nextSlot : Preserves holds nextSlot := by
  unfold nextSlot
  apply Preserves.bind (preserves_nextWord stable _)
  intro word
  split
  · split
    · exact Preserves.pure _
    · exact Preserves.failSyntax
  · apply Preserves.bind Preserves.get
    intro state
    split
    · exact Preserves.pure _
    · exact Preserves.fail

omit stable in
theorem preserves_typeOf (word : String) : Preserves holds (typeOf word) := by
  unfold typeOf
  split
  · exact Preserves.pure _
  · exact Preserves.fail

omit stable in
theorem preserves_classConstant (word : String) : Preserves holds (classConstant word) := by
  unfold classConstant
  apply Preserves.bind (preserves_typeOf word)
  intro type
  split
  · exact Preserves.inPool
  · exact Preserves.fail

theorem preserves_nextConstant : Preserves holds nextConstant := by
  unfold nextConstant
  apply Preserves.bind (preserves_nextOperand stable _)
  intro token
  split
  · exact Preserves.inPool
  · split
    · split
      · exact Preserves.inPool
      · exact Preserves.failSyntax
    · split
      · exact Preserves.inPool
      · exact preserves_classConstant _

theorem preserves_nextWideConstant : Preserves holds nextWideConstant := by
  unfold nextWideConstant
  apply Preserves.bind (preserves_nextWord stable _)
  intro word
  split
  · exact Preserves.inPool
  · split
    · exact Preserves.inPool
    · exact Preserves.failSyntax

end Operands

theorem yields_nextOperand {what : String} {token : Token}
    (yields : Yields (nextOperand what) state pool token state' pool') :
    ∃ rest, state.operands = token :: rest ∧ state' = { state with operands := rest } := by
  unfold nextOperand at yields
  obtain ⟨_, _, _, got, yields⟩ := yields_bind.1 yields
  obtain ⟨rfl, rfl, rfl⟩ := yields_get.1 got
  split at yields
  · exact absurd yields not_yields_fail
  · rename_i operands split
    obtain ⟨_, _, _, used, yields⟩ := yields_bind.1 yields
    obtain ⟨rfl, rfl⟩ := yields_modify.1 used
    obtain ⟨rfl, rfl, _⟩ := yields_pure.1 yields
    exact ⟨operands, split, rfl⟩

theorem yields_nextWord {what word : String}
    (yields : Yields (nextWord what) state pool word state' pool') :
    ∃ rest, state.operands = .word word :: rest ∧ state' = { state with operands := rest } := by
  unfold nextWord at yields
  obtain ⟨token, _, _, used, yields⟩ := yields_bind.1 yields
  obtain ⟨rest, split, rfl⟩ := yields_nextOperand used
  cases token with
  | word word =>
      obtain ⟨rfl, rfl, _⟩ := yields_pure.1 yields
      exact ⟨rest, split, rfl⟩
  | quoted text => exact absurd yields not_yields_fail

theorem yields_keyword {expected : String} {value : Unit}
    (yields : Yields (keyword expected) state pool value state' pool') :
    ∃ token rest, state.operands = token :: rest ∧ state' = { state with operands := rest } := by
  unfold keyword at yields
  obtain ⟨word, _, _, used, yields⟩ := yields_bind.1 yields
  obtain ⟨rest, split, rfl⟩ := yields_nextWord used
  split at yields
  · exact absurd yields not_yields_fail
  · obtain ⟨_, rfl, _⟩ := yields_pure.1 yields
    exact ⟨_, rest, split, rfl⟩

theorem yields_nextInteger {what : String} {low high value : Int}
    (yields : Yields (nextInteger what low high) state pool value state' pool') :
    ∃ word n rest, state.operands = .word word :: rest ∧ readInteger? word.toList = some n ∧
      n.toInt = value ∧ (low ≤ value ∧ value ≤ high) ∧ state' = { state with operands := rest } := by
  unfold nextInteger at yields
  obtain ⟨word, _, _, used, yields⟩ := yields_bind.1 yields
  obtain ⟨rest, tokens, rfl⟩ := yields_nextWord used
  split at yields
  · rename_i n read
    split at yields
    · rename_i between
      obtain ⟨rfl, rfl, _⟩ := yields_pure.1 yields
      exact ⟨word, n, rest, tokens, read, rfl, between, rfl⟩
    · exact absurd yields not_yields_fail
  · exact absurd yields not_yields_fail

theorem yields_useOperands {read : List Token → Except SyntaxFault (α × List Token)} {value : α}
    (yields : Yields (useOperands read) state pool value state' pool') :
    ∃ rest, read state.operands = .ok (value, rest) ∧ state' = { state with operands := rest } := by
  unfold useOperands at yields
  obtain ⟨_, _, _, got, yields⟩ := yields_bind.1 yields
  obtain ⟨rfl, rfl, rfl⟩ := yields_get.1 got
  split at yields
  · rename_i found rest done
    obtain ⟨_, _, _, used, yields⟩ := yields_bind.1 yields
    obtain ⟨rfl, rfl⟩ := yields_modify.1 used
    obtain ⟨rfl, rfl, _⟩ := yields_pure.1 yields
    exact ⟨rest, done, rfl⟩
  · exact absurd yields not_yields_fail

theorem yields_nextDefault {default : String}
    (yields : Yields nextDefault state pool default state' pool') :
    ∃ token rest, state.operands = token :: .word default :: rest ∧
      state' = { state with operands := rest } := by
  unfold nextDefault at yields
  obtain ⟨_, _, _, expected, yields⟩ := yields_bind.1 yields
  obtain ⟨token, _, split, rfl⟩ := yields_keyword expected
  obtain ⟨rest, split', rfl⟩ := yields_nextWord yields
  exact ⟨token, rest, split.trans (congrArg (List.cons token) split'), rfl⟩

theorem yields_finishOperands_iff {value : Unit} :
    Yields finishOperands state pool value state' pool' ↔
      state.operands = [] ∧ state = state' ∧ pool = pool' := by
  constructor
  · intro yields
    unfold finishOperands at yields
    obtain ⟨_, _, _, got, yields⟩ := yields_bind.1 yields
    obtain ⟨rfl, rfl, rfl⟩ := yields_get.1 got
    split at yields
    · rename_i used
      exact ⟨used, (yields_pure.1 yields).2⟩
    · exact absurd yields not_yields_fail
  · rintro ⟨used, rfl, rfl⟩
    refine yields_bind.2 ⟨_, _, _, yields_get.2 ⟨rfl, rfl, rfl⟩, ?_⟩
    rw [used]
    exact yields_pure.2 ⟨rfl, rfl, rfl⟩

theorem yields_finishOperands {value : Unit}
    (yields : Yields finishOperands state pool value state' pool') : state = state' ∧ pool = pool' :=
  (yields_finishOperands_iff.1 yields).2

theorem label_setLabel (state : Assembly) (name other : String) (label : Label) :
    (state.setLabel name label).label other = if name = other then label else state.label other := by
  unfold Assembly.label Assembly.setLabel
  rw [List.lookup_cons]
  by_cases same : name = other
  · simp [same]
  · rw [if_neg same, beq_false_of_ne (Ne.symm same)]

def Label.met (label : Label) (depth : Int) : Label :=
  { label with depth := some (label.depth.getD depth) }

@[simp] theorem Label.pos_met (label : Label) (depth : Int) : (label.met depth).pos = label.pos :=
  rfl

@[simp] theorem Label.met_met (label : Label) (depth : Int) :
    (label.met depth).met depth = label.met depth := by
  simp [Label.met]

theorem yields_expectDepth {label : String} {depth : Int} {value : Unit}
    (yields : Yields (expectDepth label depth) state pool value state' pool') :
    state' = state.setLabel label ((state.label label).met depth) ∧ pool = pool' := by
  obtain ⟨rfl, rfl⟩ := yields_modify.1 yields
  exact ⟨rfl, rfl⟩

theorem yields_placedAt {name : String} {pos : Nat}
    (yields : Yields (placedAt name) state pool pos state' pool') :
    (state.label name).pos = some pos ∧ state = state' ∧ pool = pool' := by
  unfold placedAt at yields
  obtain ⟨_, _, _, got, yields⟩ := yields_bind.1 yields
  obtain ⟨rfl, rfl, rfl⟩ := yields_get.1 got
  split at yields
  · rename_i found
    obtain ⟨rfl, rfl, rfl⟩ := yields_pure.1 yields
    exact ⟨found, rfl, rfl⟩
  · exact absurd yields not_yields_fail

end ClassSplice.Assembler
