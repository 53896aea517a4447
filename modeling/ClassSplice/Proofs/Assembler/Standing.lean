import ClassSplice.Proofs.Assembler.Trace

namespace ClassSplice.Assembler

open Code (Buffer Opcode)

def Standing (scope : Scope) (line : Nat) (state : Assembly) : Prop :=
  state.scope = scope ∧ state.line = line

namespace Preserves

variable {α : Type} {holds : Assembly → Prop}

theorem encoded (result : Except Error α) : Preserves holds (encoded result) := by
  cases result with
  | ok value => exact pure value
  | error error => exact fail

theorem ite {condition : Prop} [Decidable condition] {one other : AssemblyM α}
    (holding : Preserves holds one) (failing : Preserves holds other) :
    Preserves holds (if condition then one else other) := by
  split
  · exact holding
  · exact failing

theorem forM {step : α → AssemblyM PUnit} (each : ∀ item, Preserves holds (step item))
    (items : List α) : Preserves holds (items.forM step) := by
  induction items with
  | nil => exact pure _
  | cons item items ih => exact bind (each item) fun _ => ih

end Preserves

section Stable

variable {holds : Assembly → Prop}
  (stable : ∀ state operands, holds state → holds { state with operands })

include stable

theorem preserves_keyword (expected : String) : Preserves holds (keyword expected) := by
  unfold keyword
  exact Preserves.bind (preserves_nextWord stable expected) fun _ => .ite .failSyntax (.pure _)

theorem preserves_declareHandler
    (noted : ∀ state labels handlers, holds state → holds { state with labels, handlers }) :
    Preserves holds declareHandler := by
  rw [declareHandler_eq]
  refine Preserves.bind (preserves_nextWord stable _) fun caught => ?_
  have rest (catchType : Pool.Index) : Preserves holds (handlerRange catchType) :=
    .bind (preserves_keyword stable _) fun _ => .bind (preserves_nextWord stable _) fun _ =>
      .bind (preserves_keyword stable _) fun _ => .bind (preserves_nextWord stable _) fun _ =>
        .bind (preserves_keyword stable _) fun _ => .bind (preserves_nextWord stable _) fun _ =>
          .bind (.modify fun state known => noted state _ _ known) fun _ =>
            .modify fun state known => noted state _ _ known
  dsimp only
  split
  · exact .bind (.pure _) rest
  · exact .bind (preserves_classConstant _) rest

end Stable

section Standing

variable {α : Type} {scope : Scope} {line : Nat}

theorem standing_operands (state : Assembly) (operands : List Token) (standing : Standing scope line state) :
    Standing scope line { state with operands } :=
  standing

theorem standing_emit (change : Buffer → Buffer) : Preserves (Standing scope line) (emit change) :=
  .modify fun _ standing => standing

theorem standing_emitChecked (change : Buffer → Except Error Buffer) :
    Preserves (Standing scope line) (emitChecked change) :=
  Preserves.bind .get fun _ => Preserves.bind (.encoded _) fun _ =>
    .modify fun _ standing => standing

theorem standing_nextWord (what : String) : Preserves (Standing scope line) (nextWord what) :=
  preserves_nextWord standing_operands what

theorem standing_nextInteger (what : String) (low high : Int) :
    Preserves (Standing scope line) (nextInteger what low high) :=
  preserves_nextInteger standing_operands what low high

theorem standing_keyword (expected : String) : Preserves (Standing scope line) (keyword expected) :=
  preserves_keyword standing_operands expected

theorem standing_useOperands (read : List Token → Except SyntaxFault (α × List Token)) :
    Preserves (Standing scope line) (useOperands read) := by
  unfold useOperands
  refine Preserves.bind .get fun state => ?_
  split
  · exact Preserves.bind (.modify fun _ standing => standing) fun _ => .pure _
  · exact Preserves.failSyntax

theorem standing_nextDefault : Preserves (Standing scope line) nextDefault :=
  Preserves.bind (standing_keyword _) fun _ => standing_nextWord _

theorem standing_expectDepth (name : String) (depth : Int) :
    Preserves (Standing scope line) (expectDepth name depth) :=
  .modify fun _ standing => standing

theorem standing_reachLabel (label : String) : Preserves (Standing scope line) (reachLabel label) :=
  Preserves.bind .get fun _ => standing_expectDepth _ _

theorem standing_placeLabel (name : String) : Preserves (Standing scope line) (placeLabel name) := by
  unfold placeLabel
  constructor
  intro state pool value state' pool' yields standing
  obtain ⟨_, _, _, got, yields⟩ := yields_bind.1 yields
  obtain ⟨rfl, rfl, rfl⟩ := yields_get.1 got
  dsimp only at yields
  split at yields
  · exact absurd yields not_yields_fail
  · obtain ⟨rfl, _⟩ := yields_set.1 yields
    exact standing

theorem standing_placeLabels (tokens : List Token) :
    Preserves (Standing scope line) (placeLabels tokens) := by
  rw [placeLabels_eq]
  exact Preserves.bind (.forM standing_placeLabel _) fun _ => .pure _

theorem standing_addDisplacement (label : String) (origin : Nat) (isWide : Bool) :
    Preserves (Standing scope line) (addDisplacement label origin isWide) :=
  .modify fun _ standing => standing

theorem standing_switchTarget (origin : Nat) (label : String) :
    Preserves (Standing scope line) (switchTarget origin label) :=
  Preserves.bind (standing_addDisplacement _ _ _) fun _ => standing_reachLabel label

theorem standing_switchHeader (opcode : Opcode) (default : String) :
    Preserves (Standing scope line) (switchHeader opcode default) :=
  Preserves.bind .get fun _ => Preserves.bind (standing_emit _) fun _ =>
    Preserves.bind (standing_switchTarget _ _) fun _ => .pure _

theorem standing_increment : Preserves (Standing scope line) increment := by
  unfold increment
  refine Preserves.bind (preserves_nextSlot standing_operands) fun slot =>
    Preserves.bind (standing_nextInteger _ _ _) fun delta => ?_
  dsimp only
  split
  · exact Preserves.bind (standing_emit _) fun _ => standing_emit _
  · split
    · exact Preserves.bind (standing_emit _) fun _ => standing_emit _
    · exact Preserves.bind .fail fun _ => standing_emit _

theorem standing_branch (opcode : Opcode) : Preserves (Standing scope line) (branch opcode) := by
  unfold branch
  refine Preserves.bind (standing_nextWord _) fun label => Preserves.bind .get fun state => ?_
  exact Preserves.bind (standing_emit _) fun _ => Preserves.bind (standing_addDisplacement _ _ _) fun _ =>
    Preserves.bind (standing_reachLabel _) fun _ => .ite (standing_emit _) (.pure _)

theorem standing_tableSwitch : Preserves (Standing scope line) tableSwitch := by
  unfold tableSwitch
  refine Preserves.bind (standing_nextInteger _ _ _) fun low => Preserves.bind (standing_useOperands _)
    fun labels => Preserves.bind standing_nextDefault fun default => ?_
  refine .ite .failSyntax (.ite .failSyntax ?_)
  exact Preserves.bind (standing_switchHeader _ _) fun origin => Preserves.bind (standing_emit _) fun _ =>
    .forM (standing_switchTarget origin) _

theorem standing_lookupSwitch : Preserves (Standing scope line) lookupSwitch := by
  unfold lookupSwitch
  refine Preserves.bind (standing_useOperands _) fun cases => Preserves.bind standing_nextDefault
    fun default => ?_
  dsimp only
  split
  · exact Preserves.failSyntax
  · refine Preserves.bind (standing_switchHeader _ _) fun origin => Preserves.bind (standing_emit _)
      fun _ => .forM ?_ _
    rintro ⟨key, label⟩
    exact Preserves.bind (standing_emit _) fun _ => standing_switchTarget origin label

theorem standing_fieldAccess (opcode : Opcode) : Preserves (Standing scope line) (fieldAccess opcode) := by
  unfold fieldAccess
  refine Preserves.bind (preserves_nextMember standing_operands _) fun field => ?_
  split
  · exact Preserves.fail
  · exact Preserves.bind .inPool fun _ => standing_emit _

theorem standing_call (opcode : Opcode) : Preserves (Standing scope line) (call opcode) := by
  unfold call
  refine Preserves.bind (preserves_nextMember standing_operands _) fun method => ?_
  split
  · exact Preserves.fail
  · refine Preserves.bind .inPool fun index => Preserves.bind (standing_emit _) fun _ => ?_
    dsimp only
    split
    · split
      · exact Preserves.bind .failSyntax fun _ => standing_emit _
      · exact Preserves.bind (standing_emit _) fun _ => standing_emit _
    · exact standing_emit _

theorem standing_newArray : Preserves (Standing scope line) newArray := by
  unfold newArray
  refine Preserves.bind (standing_nextWord _) fun element => ?_
  split
  · exact standing_emit _
  · exact Preserves.fail

theorem standing_newArrays : Preserves (Standing scope line) newArrays := by
  unfold newArrays
  exact Preserves.bind (standing_nextWord _) fun word => Preserves.bind (preserves_classConstant word)
    fun _ => Preserves.bind (standing_nextInteger _ _ _) fun _ => .ite .failSyntax (standing_emit _)

theorem standing_operation (opcode : Opcode) : Preserves (Standing scope line) (operation opcode) := by
  have ending : Preserves (Standing scope line) (if opcode.endsFlow then
      modify fun state => { state with reachable := false } else pure ()) :=
    .ite (.modify fun _ standing => standing) (.pure _)
  have emitted (change : Buffer → Buffer) :=
    Preserves.bind (standing_emit change : Preserves (Standing scope line) _) fun _ => ending
  have checked (change : Buffer → Except Error Buffer) :=
    Preserves.bind (standing_emitChecked change : Preserves (Standing scope line) _) fun _ => ending
  have slots : Preserves (Standing scope line) nextSlot := preserves_nextSlot standing_operands
  unfold operation
  apply Preserves.ite
  · exact .bind (preserves_nextByte standing_operands _) fun _ => emitted _
  apply Preserves.ite
  · exact .bind (standing_nextInteger _ _ _) fun _ => emitted _
  apply Preserves.ite
  · exact .bind (preserves_nextConstant standing_operands) fun _ => emitted _
  apply Preserves.ite
  · exact .bind (preserves_nextWideConstant standing_operands) fun _ => emitted _
  apply Preserves.ite
  · exact .bind slots fun _ => checked _
  apply Preserves.ite
  · exact .bind slots fun _ => checked _
  apply Preserves.ite
  · exact .bind slots fun _ => checked _
  apply Preserves.ite
  · exact .bind standing_increment fun _ => ending
  apply Preserves.ite
  · exact .bind (standing_branch opcode) fun _ => ending
  apply Preserves.ite
  · exact .bind standing_tableSwitch fun _ => ending
  apply Preserves.ite
  · exact .bind standing_lookupSwitch fun _ => ending
  apply Preserves.ite
  · exact .bind (standing_fieldAccess opcode) fun _ => ending
  apply Preserves.ite
  · exact .bind (standing_call opcode) fun _ => ending
  apply Preserves.ite
  · exact .bind .failSyntax fun _ => ending
  apply Preserves.ite
  · exact .bind (standing_nextWord _) fun word => .bind (preserves_classConstant word) fun _ => emitted _
  apply Preserves.ite
  · exact .bind standing_newArray fun _ => ending
  apply Preserves.ite
  · exact .bind standing_newArrays fun _ => ending
  apply Preserves.ite
  · exact .bind .failSyntax fun _ => ending
  · exact emitted _

theorem standing_moveVariable (move : Buffer → Nat → Descriptor.ValueKind → Except Error Buffer) :
    Preserves (Standing scope line) (moveVariable move) := by
  unfold moveVariable
  refine Preserves.bind (standing_nextWord _) fun name => Preserves.bind .get fun state => ?_
  split
  · exact Preserves.fail
  · exact standing_emitChecked _

theorem standing_pushInteger : Preserves (Standing scope line) pushInteger := by
  unfold pushInteger
  exact Preserves.bind (standing_nextInteger _ _ _) fun _ => Preserves.bind .get fun _ =>
    Preserves.bind .inPool fun _ => .modify fun _ standing => standing

theorem standing_declareHandler : Preserves (Standing scope line) declareHandler :=
  preserves_declareHandler standing_operands fun _ _ _ standing => standing

end Standing

end ClassSplice.Assembler
