import ClassSplice.Proofs.Assembler.Steps
import ClassSplice.Proofs.Pool.Growth

namespace ClassSplice.Assembler

open Code (Buffer Opcode)
open Pool (Appends)

structure AddsConstants {α : Type} (step : AssemblyM α) : Prop where
  appends : ∀ state, Appends (step state)

namespace AddsConstants

variable {α β : Type}

theorem pure (value : α) : AddsConstants (pure value : AssemblyM α) :=
  ⟨fun _ => Pool.appends_pure _⟩

theorem get : AddsConstants (get : AssemblyM Assembly) :=
  ⟨fun _ => Pool.appends_pure _⟩

theorem set (state : Assembly) : AddsConstants (set state : AssemblyM PUnit) :=
  ⟨fun _ => Pool.appends_pure _⟩

theorem modify (change : Assembly → Assembly) :
    AddsConstants (modify change : AssemblyM PUnit) :=
  ⟨fun _ => Pool.appends_pure _⟩

theorem bind {step : AssemblyM α} {rest : α → AssemblyM β} (first : AddsConstants step)
    (second : ∀ value, AddsConstants (rest value)) : AddsConstants (step >>= rest) :=
  ⟨fun state => (first.appends state).bind fun made => (second made.1).appends made.2⟩

theorem fail (cause : Cause) : AddsConstants (fail cause : AssemblyM α) :=
  get.bind fun _ => ⟨fun _ => Pool.appends_throw _⟩

theorem failSyntax (fault : SyntaxFault) : AddsConstants (failSyntax fault : AssemblyM α) :=
  fail _

theorem ite {condition : Prop} [Decidable condition] {one other : AssemblyM α}
    (holding : AddsConstants one) (failing : AddsConstants other) :
    AddsConstants (if condition then one else other) := by
  split
  · exact holding
  · exact failing

theorem encoded (result : Except Error α) : AddsConstants (encoded result) := by
  cases result with
  | ok value => exact pure value
  | error error => exact fail _

theorem inPool {change : PoolM α} (appends : Appends change) : AddsConstants (inPool change) := by
  refine ⟨fun state before => ?_⟩
  have extended := appends before
  unfold outcome at extended ⊢
  unfold Assembler.inPool
  split
  · rename_i run
    rwa [run] at extended
  · rename_i run
    rwa [run] at extended

theorem emit (change : Buffer → Buffer) : AddsConstants (emit change) :=
  modify _

theorem emitChecked (change : Buffer → Except Error Buffer) : AddsConstants (emitChecked change) :=
  get.bind fun _ => (encoded _).bind fun _ => modify _

theorem forM {step : α → AssemblyM PUnit} (each : ∀ item, AddsConstants (step item))
    (items : List α) : AddsConstants (items.forM step) := by
  induction items with
  | nil => exact pure _
  | cons item items ih => exact (each item).bind fun _ => ih

theorem forArray {step : α → AssemblyM PUnit} (each : ∀ item, AddsConstants (step item))
    (items : Array α) : AddsConstants (items.forM step) := by
  have folded (list : List α) : AddsConstants (list.foldlM (fun _ => step) ⟨⟩) := by
    induction list with
    | nil => exact pure _
    | cons item list ih =>
        rw [List.foldlM_cons]
        exact (each item).bind fun _ => ih
  unfold Array.forM
  rw [← Array.foldlM_toList]
  exact folded items.toList

end AddsConstants

theorem addsConstants_nextOperand (what : String) : AddsConstants (nextOperand what) := by
  unfold nextOperand
  refine .bind .get fun state => ?_
  split
  · exact .failSyntax _
  · exact .bind (.modify _) fun _ => .pure _

theorem addsConstants_nextWord (what : String) : AddsConstants (nextWord what) := by
  unfold nextWord
  refine .bind (addsConstants_nextOperand what) fun token => ?_
  split
  · exact .pure _
  · exact .failSyntax _

theorem addsConstants_keyword (expected : String) : AddsConstants (keyword expected) := by
  unfold keyword
  exact .bind (addsConstants_nextWord expected) fun _ => .ite (.failSyntax _) (.pure _)

theorem addsConstants_nextInteger (what : String) (low high : Int) :
    AddsConstants (nextInteger what low high) := by
  unfold nextInteger
  refine .bind (addsConstants_nextWord what) fun word => ?_
  split
  · exact .ite (.pure _) (.failSyntax _)
  · exact .failSyntax _

theorem addsConstants_nextMember (what : String) : AddsConstants (nextMember what) := by
  unfold nextMember
  refine .bind (addsConstants_nextWord what) fun word => ?_
  split
  · exact .pure _
  · exact .failSyntax _

theorem addsConstants_nextSlot : AddsConstants nextSlot := by
  unfold nextSlot
  refine .bind (addsConstants_nextWord _) fun word => ?_
  split
  · exact .ite (.pure _) (.failSyntax _)
  · refine .bind .get fun state => ?_
    split
    · exact .pure _
    · exact .fail _

theorem addsConstants_typeOf (word : String) : AddsConstants (typeOf word) := by
  unfold typeOf
  split
  · exact .pure _
  · exact .fail _

theorem addsConstants_classConstant (word : String) : AddsConstants (classConstant word) := by
  unfold classConstant
  refine .bind (addsConstants_typeOf word) fun type => ?_
  split
  · exact .inPool (Pool.appends_internClass _)
  · exact .fail _

theorem addsConstants_nextConstant : AddsConstants nextConstant := by
  unfold nextConstant
  refine .bind (addsConstants_nextOperand _) fun token => ?_
  split
  · exact .inPool (Pool.appends_internString _)
  · split
    · exact .ite (.inPool (Pool.appends_intern _)) (.failSyntax _)
    · split
      · exact .inPool (Pool.appends_intern _)
      · exact addsConstants_classConstant _

theorem addsConstants_nextWideConstant : AddsConstants nextWideConstant := by
  unfold nextWideConstant
  refine .bind (addsConstants_nextWord _) fun word => ?_
  split
  · exact .inPool (Pool.appends_intern _)
  · split
    · exact .inPool (Pool.appends_intern _)
    · exact .failSyntax _

theorem addsConstants_useOperands {α : Type}
    (read : List Token → Except SyntaxFault (α × List Token)) : AddsConstants (useOperands read) := by
  unfold useOperands
  refine .bind .get fun state => ?_
  split
  · exact .bind (.modify _) fun _ => .pure _
  · exact .failSyntax _

theorem addsConstants_nextDefault : AddsConstants nextDefault :=
  (addsConstants_keyword _).bind fun _ => addsConstants_nextWord _

theorem addsConstants_finishOperands : AddsConstants finishOperands := by
  unfold finishOperands
  refine .bind .get fun state => ?_
  split
  · exact .pure _
  · exact .failSyntax _

theorem addsConstants_placeLabel (name : String) : AddsConstants (placeLabel name) := by
  unfold placeLabel
  exact .bind .get fun _ => .ite (.fail _) (.set _)

theorem addsConstants_reachLabel (label : String) : AddsConstants (reachLabel label) := by
  unfold reachLabel
  exact .bind .get fun _ => .modify _

theorem addsConstants_switchTarget (origin : Nat) (label : String) :
    AddsConstants (switchTarget origin label) :=
  AddsConstants.bind (.modify _) fun _ => addsConstants_reachLabel label

theorem addsConstants_switchHeader (opcode : Opcode) (default : String) :
    AddsConstants (switchHeader opcode default) := by
  unfold switchHeader
  exact .bind .get fun _ => .bind (.emit _) fun _ =>
    .bind (addsConstants_switchTarget _ _) fun _ => .pure _

theorem addsConstants_increment : AddsConstants increment := by
  unfold increment
  refine .bind addsConstants_nextSlot fun slot => .bind (addsConstants_nextInteger _ _ _) fun delta => ?_
  dsimp only
  split
  · exact .bind (.emit _) fun _ => .emit _
  · split
    · exact .bind (.emit _) fun _ => .emit _
    · exact .bind (.fail _) fun _ => .emit _

theorem addsConstants_branch (opcode : Opcode) : AddsConstants (branch opcode) := by
  unfold branch
  refine .bind (addsConstants_nextWord _) fun label => .bind .get fun state => ?_
  exact .bind (.emit _) fun _ => .bind (.modify _) fun _ =>
    .bind (addsConstants_reachLabel _) fun _ => .ite (.emit _) (.pure _)

theorem addsConstants_tableSwitch : AddsConstants tableSwitch := by
  unfold tableSwitch
  refine .bind (addsConstants_nextInteger _ _ _) fun low => .bind (addsConstants_useOperands _)
    fun labels => .bind addsConstants_nextDefault fun default => ?_
  refine .ite (.failSyntax _) (.ite (.failSyntax _) ?_)
  exact .bind (addsConstants_switchHeader _ _) fun origin => .bind (.emit _) fun _ =>
    .forM (addsConstants_switchTarget origin) _

theorem addsConstants_lookupSwitch : AddsConstants lookupSwitch := by
  unfold lookupSwitch
  refine .bind (addsConstants_useOperands _) fun cases => .bind addsConstants_nextDefault
    fun default => ?_
  dsimp only
  split
  · exact .failSyntax _
  · refine .bind (addsConstants_switchHeader _ _) fun origin => .bind (.emit _) fun _ =>
      .forM ?_ _
    rintro ⟨key, label⟩
    exact .bind (.emit _) fun _ => addsConstants_switchTarget origin label

theorem addsConstants_fieldAccess (opcode : Opcode) : AddsConstants (fieldAccess opcode) := by
  unfold fieldAccess
  refine .bind (addsConstants_nextMember _) fun field => ?_
  split
  · exact .fail _
  · exact .bind (.inPool (Pool.appends_internField _ _ _)) fun _ => .emit _

theorem addsConstants_call (opcode : Opcode) : AddsConstants (call opcode) := by
  unfold call
  refine .bind (addsConstants_nextMember _) fun method => ?_
  split
  · exact .fail _
  · refine .bind (.inPool (Pool.appends_internMethod _ _ _ _)) fun index =>
      .bind (.emit _) fun _ => ?_
    dsimp only
    split
    · split
      · exact .bind (.failSyntax _) fun _ => .emit _
      · exact .bind (.emit _) fun _ => .emit _
    · exact .emit _

theorem addsConstants_newArray : AddsConstants newArray := by
  unfold newArray
  refine .bind (addsConstants_nextWord _) fun element => ?_
  split
  · exact .emit _
  · exact .fail _

theorem addsConstants_newArrays : AddsConstants newArrays := by
  unfold newArrays
  exact .bind (addsConstants_nextWord _) fun word => .bind (addsConstants_classConstant word) fun _ =>
    .bind (addsConstants_nextInteger _ _ _) fun _ => .ite (.failSyntax _) (.emit _)

theorem addsConstants_operation (opcode : Opcode) : AddsConstants (operation opcode) := by
  have ending : AddsConstants (if opcode.endsFlow then
      modify fun state => { state with reachable := false } else pure ()) :=
    .ite (.modify _) (.pure _)
  have emitted (change : Buffer → Buffer) := (AddsConstants.emit change).bind fun _ => ending
  have checked (change : Buffer → Except Error Buffer) :=
    (AddsConstants.emitChecked change).bind fun _ => ending
  unfold operation
  apply AddsConstants.ite
  · exact .bind (.bind (addsConstants_nextInteger _ _ _) fun _ => .pure _) fun _ => emitted _
  apply AddsConstants.ite
  · exact .bind (addsConstants_nextInteger _ _ _) fun _ => emitted _
  apply AddsConstants.ite
  · exact .bind addsConstants_nextConstant fun _ => emitted _
  apply AddsConstants.ite
  · exact .bind addsConstants_nextWideConstant fun _ => emitted _
  apply AddsConstants.ite
  · exact .bind addsConstants_nextSlot fun _ => checked _
  apply AddsConstants.ite
  · exact .bind addsConstants_nextSlot fun _ => checked _
  apply AddsConstants.ite
  · exact .bind addsConstants_nextSlot fun _ => checked _
  apply AddsConstants.ite
  · exact addsConstants_increment.bind fun _ => ending
  apply AddsConstants.ite
  · exact (addsConstants_branch opcode).bind fun _ => ending
  apply AddsConstants.ite
  · exact addsConstants_tableSwitch.bind fun _ => ending
  apply AddsConstants.ite
  · exact addsConstants_lookupSwitch.bind fun _ => ending
  apply AddsConstants.ite
  · exact (addsConstants_fieldAccess opcode).bind fun _ => ending
  apply AddsConstants.ite
  · exact (addsConstants_call opcode).bind fun _ => ending
  apply AddsConstants.ite
  · exact .bind (.failSyntax _) fun _ => ending
  apply AddsConstants.ite
  · exact .bind (addsConstants_nextWord _) fun word => .bind (addsConstants_classConstant word)
      fun _ => emitted _
  apply AddsConstants.ite
  · exact addsConstants_newArray.bind fun _ => ending
  apply AddsConstants.ite
  · exact addsConstants_newArrays.bind fun _ => ending
  apply AddsConstants.ite
  · exact .bind (.failSyntax _) fun _ => ending
  · exact emitted _

theorem addsConstants_moveVariable
    (move : Buffer → Nat → Descriptor.ValueKind → Except Error Buffer) :
    AddsConstants (moveVariable move) := by
  unfold moveVariable
  refine .bind (addsConstants_nextWord _) fun name => .bind .get fun state => ?_
  split
  · exact .fail _
  · exact .emitChecked _

theorem appends_addInteger (buffer : Buffer) (value : Int32) : Appends (buffer.addInteger value) := by
  unfold Buffer.addInteger
  dsimp only
  split
  · exact Pool.appends_pure _
  · split
    · exact Pool.appends_pure _
    · split
      · exact Pool.appends_pure _
      · exact (Pool.appends_intern _).bind fun _ => Pool.appends_pure _

theorem addsConstants_pushInteger : AddsConstants pushInteger := by
  unfold pushInteger
  exact .bind (addsConstants_nextInteger _ _ _) fun _ => .bind .get fun _ =>
    .bind (.inPool (appends_addInteger _ _)) fun _ => .modify _

theorem addsConstants_declareLocal : AddsConstants declareLocal := by
  unfold declareLocal
  exact .bind (addsConstants_nextWord _) fun _ => .ite (.failSyntax _)
    (.bind (addsConstants_nextWord _) fun word => .bind (addsConstants_typeOf word) fun _ =>
      .bind .get fun _ => .bind (.encoded _) fun _ => .set _)

theorem addsConstants_declareHandler : AddsConstants declareHandler := by
  rw [declareHandler_eq]
  refine .bind (addsConstants_nextWord _) fun caught => ?_
  have rest (catchType : Pool.Index) : AddsConstants (handlerRange catchType) :=
    .bind (addsConstants_keyword _) fun _ => .bind (addsConstants_nextWord _) fun _ =>
      .bind (addsConstants_keyword _) fun _ => .bind (addsConstants_nextWord _) fun _ =>
        .bind (addsConstants_keyword _) fun _ => .bind (addsConstants_nextWord _) fun _ =>
          .bind (.modify _) fun _ => .modify _
  dsimp only
  split
  · exact .bind (.pure _) rest
  · exact .bind (addsConstants_classConstant _) rest

theorem addsConstants_instruction (mnemonic : String) : AddsConstants (instruction mnemonic) := by
  unfold instruction
  split
  · exact addsConstants_moveVariable _
  · exact addsConstants_moveVariable _
  · exact addsConstants_pushInteger
  · exact addsConstants_declareLocal
  · exact addsConstants_declareHandler
  · split
    · exact .fail _
    · exact .bind (addsConstants_operation _) fun _ => .bind .get fun _ => .ite (.fail _) (.pure _)

theorem addsConstants_placeLabels (tokens : List Token) : AddsConstants (placeLabels tokens) := by
  fun_induction placeLabels tokens with
  | case1 word rest label found ih => exact .bind (addsConstants_placeLabel label) fun _ => ih
  | case2 => exact .pure _
  | case3 => exact .pure _

theorem addsConstants_statement (source : Statement) : AddsConstants (statement source) := by
  unfold statement
  refine .bind (.modify _) fun _ => .bind (addsConstants_placeLabels _) fun tokens => ?_
  split
  · exact .pure _
  · exact .failSyntax _
  · exact .bind (.modify _) fun _ => .bind (addsConstants_instruction _) fun _ =>
      addsConstants_finishOperands

theorem addsConstants_placedAt (name : String) : AddsConstants (placedAt name) := by
  unfold placedAt
  refine .bind .get fun state => ?_
  split
  · exact .pure _
  · exact .fail _

theorem addsConstants_patch (fixup : Fixup) : AddsConstants (patch fixup) := by
  unfold patch
  exact .bind (.modify _) fun _ => .bind (addsConstants_placedAt _) fun _ =>
    .ite (.emit _) (.ite (.emit _) (.failSyntax _))

theorem addsConstants_addHandler (handler : PendingHandler) : AddsConstants (addHandler handler) := by
  unfold addHandler
  exact .bind (.modify _) fun _ => .bind (addsConstants_placedAt _) fun _ =>
    .bind (addsConstants_placedAt _) fun _ => .bind (addsConstants_placedAt _) fun _ => .emitChecked _

theorem addsConstants_assembleAll (statements : List Statement) :
    AddsConstants (assembleAll statements) := by
  unfold assembleAll
  exact .bind (.forM addsConstants_statement _) fun _ => .bind .get fun _ =>
    .bind (.forArray addsConstants_patch _) fun _ => .bind .get fun _ =>
      .forArray addsConstants_addHandler _

theorem appends_assemble (source : String) (scope : Scope) (buffer : Buffer) :
    Appends (assemble source scope buffer) := by
  unfold assemble
  split
  · exact (Pool.appends_pure _).bind fun _ =>
      ((addsConstants_assembleAll _).appends _).bind fun _ => Pool.appends_pure _
  · exact (Pool.appends_throw _).bind fun _ =>
      ((addsConstants_assembleAll _).appends _).bind fun _ => Pool.appends_pure _

end ClassSplice.Assembler
