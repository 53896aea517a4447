import ClassSplice.Proofs.Layout.Image
import ClassSplice.Proofs.Layout.Simulation
import ClassSplice.Proofs.Machine.Execution

namespace ClassSplice.Machine

open Code (Image Instruction Located Opcode)
open Descriptor (ValueKind)

variable {Value Heap Address Address' : Type} {size : Nat}

def Frame.Agrees (size : Nat) (moved : Address → Address') (frame : Frame Nat Value Heap Address)
    (frame' : Frame Nat Value Heap Address') : Prop :=
  frame'.below size = (frame.below size).map moved

inductive Effect.Tracks (Lands : Int → Int → Prop) (size : Nat) (moved : Address → Address') :
    Effect Value Heap Address → Effect Value Heap Address' → Prop
  | onward {frame frame'} (agrees : Frame.Agrees size moved frame frame') :
      Tracks Lands size moved (.goes .onward frame) (.goes .onward frame')
  | jump {target landed frame frame'} (lands : Lands target landed)
      (agrees : Frame.Agrees size moved frame frame') :
      Tracks Lands size moved (.goes (.jump target) frame) (.goes (.jump landed) frame')
  | back {pos frame frame'} (agrees : Frame.Agrees size moved frame frame') :
      Tracks Lands size moved (.goes (.back pos) frame) (.goes (.back (moved pos)) frame')
  | raises {exception heap} :
      Tracks Lands size moved (.raises exception heap) (.raises exception heap)
  | returns {result heap} : Tracks Lands size moved (.returns result heap) (.returns result heap)
  | stuck : Tracks Lands size moved .stuck .stuck

theorem Effect.Tracks.stuck_iff {Lands : Int → Int → Prop} {moved : Address → Address'}
    {effect : Effect Value Heap Address} {effect' : Effect Value Heap Address'}
    (tracks : effect.Tracks Lands size moved effect') : effect' = .stuck ↔ effect = .stuck := by
  cases tracks <;> simp

def StaysBelow (size : Nat) (instruction : Instruction) : Prop :=
  ∀ bytes opcode slot, instruction = .plain bytes → accessed? bytes = some (opcode, slot) →
    slot < size

section Frames

variable {moved : Address → Address'} {frame : Frame Nat Value Heap Address}
  {frame' : Frame Nat Value Heap Address'}

theorem Frame.agrees_iff : frame.Agrees size moved frame' ↔
    frame'.stack = frame.stack.map (Word.map moved) ∧
      (∀ slot < size, frame'.locals slot = (frame.locals slot).map (Word.map moved)) ∧
      frame'.heap = frame.heap := by
  obtain ⟨stack, locals, heap⟩ := frame
  obtain ⟨stack', locals', heap'⟩ := frame'
  simp only [Agrees, below, map, Frame.mk.injEq]
  constructor
  · rintro ⟨same, each, kept⟩
    exact ⟨same, fun slot known => congrFun each ⟨slot, known⟩, kept⟩
  · rintro ⟨same, each, kept⟩
    exact ⟨same, funext fun slot => each slot slot.2, kept⟩

theorem Frame.Agrees.stack (agrees : frame.Agrees size moved frame') :
    frame'.stack = frame.stack.map (Word.map moved) :=
  (agrees_iff.1 agrees).1

theorem Frame.Agrees.locals (agrees : frame.Agrees size moved frame') {slot : Nat}
    (known : slot < size) : frame'.locals slot = (frame.locals slot).map (Word.map moved) :=
  (agrees_iff.1 agrees).2.1 slot known

theorem Frame.Agrees.heap (agrees : frame.Agrees size moved frame') : frame'.heap = frame.heap :=
  (agrees_iff.1 agrees).2.2

theorem Frame.Agrees.withStack (agrees : frame.Agrees size moved frame')
    {stack : List (Word Value Address)} {stack' : List (Word Value Address')}
    (same : stack' = stack.map (Word.map moved)) :
    Frame.Agrees size moved { frame with stack } { frame' with stack := stack' } :=
  agrees_iff.2 ⟨same, (agrees_iff.1 agrees).2⟩

theorem Frame.Agrees.push (agrees : frame.Agrees size moved frame') (word : Word Value Address) :
    (frame.push word).Agrees size moved (frame'.push (word.map moved)) :=
  agrees.withStack (by rw [agrees.stack, List.map_cons])

theorem Frame.Agrees.caught (agrees : frame.Agrees size moved frame') (exception : Value)
    (heap : Heap) : Frame.Agrees size moved { frame with stack := [.value exception], heap }
      { frame' with stack := [.value exception], heap } :=
  agrees_iff.2 ⟨rfl, (agrees_iff.1 agrees).2.1, rfl⟩

theorem Frame.below_change (changed : Frame (Fin size) Value Heap Address) :
    (frame.change changed).below size = changed := by
  simp only [below, change, Fin.is_lt, dif_pos, Fin.eta]

theorem Frame.change_agrees (changed : Frame (Fin size) Value Heap Address) :
    (frame.change changed).Agrees size moved (frame'.change (changed.map moved)) := by
  rw [Agrees, below_change, below_change]

theorem entered_agrees (meaning : Meaning Value Heap size) (moved : Address → Address')
    (arguments : List Value) (heap : Heap) : Frame.Agrees size moved
      (meaning.entered arguments heap) (meaning.entered arguments heap) := by
  refine Frame.agrees_iff.2 ⟨rfl, fun slot _ => ?_, rfl⟩
  show _ = (Option.map _ _).map _
  rw [Option.map_map]
  rfl

end Frames

theorem popValues_map (moved : Address → Address') (count : Nat)
    (stack : List (Word Value Address)) :
    popValues count (stack.map (Word.map moved)) =
      (popValues count stack).map (.map id (List.map (Word.map moved))) := by
  induction count generalizing stack with
  | zero => rfl
  | succ count ih =>
      rcases stack with _ | ⟨value | pos, stack⟩
      · rfl
      · show (popValues count (stack.map (Word.map moved))).map _ =
          ((popValues count stack).map _).map _
        rw [ih, Option.map_map, Option.map_map]
        rfl
      · rfl

section Plain

variable {Lands : Int → Int → Prop} {moved : Address → Address'} (meaning : Meaning Value Heap size)
  {frame : Frame Nat Value Heap Address} {frame' : Frame Nat Value Heap Address'}

theorem ordinary_tracks (agrees : frame.Agrees size moved frame') (bytes : List UInt8) :
    (meaning.ordinary bytes frame).Tracks Lands size moved (meaning.ordinary bytes frame') := by
  have same : meaning.act bytes (frame'.below size) =
      (meaning.act bytes (frame.below size)).map moved := by
    rw [show frame'.below size = _ from agrees, meaning.act_map]
  unfold Meaning.ordinary
  rw [same]
  cases meaning.act bytes (frame.below size) with
  | goes changed => exact .onward (Frame.change_agrees changed)
  | raises exception heap => exact .raises
  | stuck => exact .stuck

theorem access_tracks (agrees : frame.Agrees size moved frame') {opcode : Opcode} {slot : Nat}
    (known : slot < size) (bytes : List UInt8) : (meaning.access opcode slot bytes frame).Tracks
      Lands size moved (meaning.access opcode slot bytes frame') := by
  unfold Meaning.access
  split
  · rw [agrees.locals known]
    rcases frame.locals slot with _ | ⟨value | pos⟩
    · exact .stuck
    · exact .stuck
    · exact .back agrees
  · exact ordinary_tracks meaning agrees bytes

theorem leave_tracks (agrees : frame.Agrees size moved frame') (result : Option ValueKind) :
    (meaning.leave result frame).Tracks Lands size moved (meaning.leave result frame') := by
  unfold Meaning.leave
  rw [agrees.stack, agrees.heap]
  rcases result with _ | kind
  · exact .returns
  · rcases frame.stack with _ | ⟨value | pos, stack⟩
    · exact .stuck
    · show Effect.Tracks _ _ _ (if _ then _ else _) (if _ then _ else _)
      split
      · exact .returns
      · exact .stuck
    · exact .stuck

theorem leave_stuck_iff (agrees : frame.Agrees size moved frame') (result : Option ValueKind) :
    meaning.leave result frame' = .stuck ↔ meaning.leave result frame = .stuck := by
  have tracks : (meaning.leave result frame).Tracks Eq size moved _ :=
    leave_tracks meaning agrees result
  exact tracks.stuck_iff

theorem throw_tracks (agrees : frame.Agrees size moved frame') :
    (meaning.throw frame).Tracks Lands size moved (meaning.throw frame') := by
  unfold Meaning.throw
  rw [agrees.stack, agrees.heap]
  rcases frame.stack with _ | ⟨value | pos, stack⟩
  · exact .stuck
  · exact .raises
  · exact .stuck

theorem plain_tracks (agrees : frame.Agrees size moved frame') {bytes : List UInt8}
    (known : StaysBelow size (.plain bytes)) :
    (meaning.plain bytes frame).Tracks Lands size moved (meaning.plain bytes frame') := by
  unfold Meaning.plain
  split
  · rename_i opcode slot accessed
    exact access_tracks meaning agrees (known bytes opcode slot rfl accessed) bytes
  · split
    · split
      · exact leave_tracks meaning agrees _
      · split
        · exact throw_tracks meaning agrees
        · exact ordinary_tracks meaning agrees _
    · exact ordinary_tracks meaning agrees _

end Plain

section Execute

variable {Lands : Int → Int → Prop} {moved : Address → Address'} (meaning : Meaning Value Heap size)
  {frame : Frame Nat Value Heap Address} {frame' : Frame Nat Value Heap Address'}

theorem switch_tracks (agrees : frame.Agrees size moved frame') {target target' : List Value → Int}
    (lands : ∀ operands, Lands (target operands) (target' operands)) :
    Effect.Tracks Lands size moved
      (match popValues 1 frame.stack with
        | none => .stuck
        | some (operands, stack) => .goes (.jump (target operands)) { frame with stack })
      (match popValues 1 frame'.stack with
        | none => .stuck
        | some (operands, stack) => .goes (.jump (target' operands)) { frame' with stack }) := by
  rw [agrees.stack, popValues_map]
  rcases popValues 1 frame.stack with _ | ⟨operands, stack⟩
  · exact .stuck
  · exact .jump (lands operands) (agrees.withStack rfl)

theorem execute_tracks {here : Nat} {instruction : Instruction} {located : Located}
    (behind : Address) (agrees : frame.Agrees size moved frame')
    (is : Image Lands here instruction [(here, located)]) (known : StaysBelow size instruction) :
    (meaning.execute instruction behind frame).Tracks Lands size moved
      (meaning.execute located.instruction (moved behind) frame') := by
  cases is with
  | plain bytes => exact plain_tracks meaning agrees known
  | @branch opcode target landed lands =>
      unfold Meaning.execute
      dsimp only
      rw [agrees.stack, popValues_map]
      rcases popValues (operandCount opcode) frame.stack with _ | ⟨operands, stack⟩
      · exact .stuck
      · dsimp only [Option.map, Prod.map, id]
        split
        · exact .onward (agrees.withStack rfl)
        · split
          · exact .jump lands (agrees.push (.address behind))
          · exact .jump lands (agrees.withStack rfl)
  | goto lands => exact .jump lands (agrees.withStack agrees.stack)
  | jsr lands => exact .jump lands (agrees.push (.address behind))
  | @wideBranch opcode target landed lands =>
      unfold Meaning.execute
      dsimp only
      split
      · exact .jump lands (agrees.push (.address behind))
      · exact .jump lands agrees
  | @tableSwitch default landed low high targets targets' lands each =>
      apply switch_tracks agrees
      intro operands
      split
      · exact Code.getD_lands lands each _
      · exact lands
  | lookupSwitch lands each =>
      exact switch_tracks agrees fun operands =>
        Code.lookup_lands lands each (meaning.conditions.key operands)

section Jump

variable {target : Int} {frame next : Frame Nat Value Heap Address}

theorem ordinary_ne_jump (bytes : List UInt8) :
    meaning.ordinary bytes frame ≠ .goes (.jump target) next := by
  unfold Meaning.ordinary
  split <;> exact nofun

theorem access_ne_jump (opcode : Opcode) (slot : Nat) (bytes : List UInt8) :
    meaning.access opcode slot bytes frame ≠ .goes (.jump target) next := by
  unfold Meaning.access Meaning.load Meaning.store
  split_ifs
  · split <;> exact nofun
  · exact ordinary_ne_jump meaning bytes
  · split
    · split
      · split <;> exact nofun
      · exact nofun
    · split
      · split <;> exact nofun
      · exact nofun
    · exact nofun

theorem leave_ne_jump (result : Option ValueKind) :
    meaning.leave result frame ≠ .goes (.jump target) next := by
  unfold Meaning.leave
  split
  · exact nofun
  · split <;> exact nofun
  · exact nofun

theorem plain_ne_jump (bytes : List UInt8) :
    meaning.plain bytes frame ≠ .goes (.jump target) next := by
  unfold Meaning.plain
  split
  · exact access_ne_jump meaning _ _ bytes
  · split
    · split
      · exact leave_ne_jump meaning _
      · unfold Meaning.throw
        split
        · split <;> exact nofun
        · exact ordinary_ne_jump meaning _
    · exact ordinary_ne_jump meaning _

theorem mem_targets_of_jump {instruction : Instruction} {behind : Address}
    (goes : meaning.execute instruction behind frame = .goes (.jump target) next) :
    target ∈ instruction.targets := by
  cases instruction with
  | plain bytes => exact absurd goes (plain_ne_jump meaning bytes)
  | branch opcode goal =>
      simp only [Meaning.execute] at goes
      split at goes
      · cases goes
      · split_ifs at goes <;> cases goes <;> exact List.mem_singleton_self _
  | wideBranch opcode goal =>
      simp only [Meaning.execute] at goes
      split_ifs at goes <;> cases goes <;> exact List.mem_singleton_self _
  | tableSwitch default low high targets =>
      simp only [Meaning.execute] at goes
      split at goes
      · cases goes
      · cases goes
        split_ifs
        · exact Code.getD_mem_targets _ _ _
        · exact List.mem_cons_self
  | lookupSwitch default cases =>
      simp only [Meaning.execute] at goes
      split at goes
      · cases goes
      · cases goes
        exact Code.lookup_mem_targets _ _ _

end Jump

end Execute

def comparing : List (String × String) :=
  (Opcode.opposites.drop 3).take 4

theorem operandCount_opposite {opcode inverse : Opcode} (opposite : opcode.Opposite inverse) :
    operandCount inverse = operandCount opcode := by
  have named (opcode : Opcode) (pair : String × String) (member : pair ∈ Opcode.opposites)
      (known : opcode.mnemonic? = some pair.1 ∨ opcode.mnemonic? = some pair.2) :
      operandCount opcode = if pair ∈ comparing then 2 else 1 := by
    have := Opcode.forall_of_fin (fun opcode => Opcode.opposites.all fun pair =>
      decide (opcode.mnemonic? = some pair.1 ∨ opcode.mnemonic? = some pair.2 →
        operandCount opcode = if pair ∈ comparing then 2 else 1)) (by decide +kernel) opcode
    exact of_decide_eq_true (List.all_eq_true.1 this pair member) known
  obtain ⟨pair, member, same⟩ := opposite
  rcases same with ⟨one, other⟩ | ⟨one, other⟩
  · rw [named opcode pair member (.inl one), named inverse pair member (.inr other)]
  · rw [named opcode pair member (.inr one), named inverse pair member (.inl other)]

def Performs (meaning : Meaning Value Heap size) (code : Code) (here behind : Nat)
    (instruction : Instruction) : Prop :=
  ∀ frame, Comes (meaning.step code) ⟨here, frame⟩
    (meaning.resume code here behind frame (meaning.execute instruction behind frame))

section Forms

variable {meaning : Meaning Value Heap size} {code : Code} {here behind : Nat}

theorem performs_of_reads {located : Located} (reads : Code.Reads code.bytes here located)
    (ended : here + located.length = behind) :
    Performs meaning code here behind located.instruction := by
  intro frame
  subst ended
  rw [← step_of_reads reads]
  exact .step _ _

theorem performs_of_opposite {opcode inverse : Opcode} {moved : Int}
    (opposite : opcode.Opposite inverse)
    (reads : Code.Reads code.bytes here ⟨3, .branch inverse (here + 8)⟩)
    (jump : Code.Reads code.bytes (here + 3) ⟨5, .wideBranch Opcode.gotoW moved⟩) :
    Performs meaning code here (here + 8) (.branch opcode moved) := by
  intro frame
  obtain ⟨conditional, conditional'⟩ := opposite.isConditional
  have other {opcode : Opcode} (known : opcode.isConditional = true) : opcode ≠ Opcode.jsr := by
    rintro rfl
    cases known
  have count := operandCount_opposite opposite
  cases popped : popValues (operandCount opcode) frame.stack with
  | none =>
      have stuck (target : Int) {opcode' : Opcode} {behind : Nat}
          (same : operandCount opcode' = operandCount opcode) :
          meaning.execute (.branch opcode' target) behind frame = .stuck := by
        simp only [Meaning.execute, same, popped]
      rw [stuck moved rfl]
      exact .out (.out (step_stuck reads (stuck _ count)))
  | some found =>
      obtain ⟨operands, stack⟩ := found
      have decided := meaning.conditions.opposite opposite operands
      cases taken : meaning.conditions.taken opcode operands with
      | false =>
          rw [taken] at decided
          have onward : meaning.execute (.branch opcode moved) (here + 8) frame =
              .goes .onward { frame with stack } := by
            simp [Meaning.execute, popped, conditional, taken]
          have skips : meaning.execute (.branch inverse (here + 8)) (here + 3) frame =
              .goes (.jump (here + 8)) { frame with stack } := by
            simp [Meaning.execute, count, popped, conditional', decided, other conditional']
          rw [onward, resume_goes rfl]
          exact .on Nat.one_pos (.one (step_goes reads skips rfl))
      | true =>
          rw [taken] at decided
          have jumps : meaning.execute (.branch opcode moved) (here + 8) frame =
              .goes (.jump moved) { frame with stack } := by
            simp [Meaning.execute, popped, conditional, taken, other conditional]
          have onward : meaning.execute (.branch inverse (here + 8)) (here + 3) frame =
              .goes .onward { frame with stack } := by
            simp [Meaning.execute, count, popped, conditional', decided]
          rw [jumps]
          exact (Travels.one (step_goes reads onward rfl)).comes (performs_of_reads jump rfl _)

theorem exists_performs {Lands : Int → Int → Prop} {instruction : Instruction}
    {image : List (Nat × Located)} (is : Image Lands here instruction image)
    (run : Code.Runs code.bytes here image behind) :
    ∃ located, Image Lands here instruction [(here, located)] ∧
      Performs meaning code here behind located.instruction := by
  have alone {located : Located} (is : Image Lands here instruction [(here, located)])
      (run : Code.Runs code.bytes here [(here, located)] behind) :
      ∃ located, Image Lands here instruction [(here, located)] ∧
        Performs meaning code here behind located.instruction := by
    obtain _ | ⟨reads, _ | _⟩ := run
    exact ⟨located, is, performs_of_reads reads rfl⟩
  cases is with
  | plain bytes => exact alone (.plain bytes) run
  | branch lands => exact alone (.branch lands) run
  | goto lands => exact alone (.goto lands) run
  | jsr lands => exact alone (.jsr lands) run
  | conditional opposite lands =>
      obtain _ | ⟨reads, _ | ⟨jump, _ | _⟩⟩ := run
      exact ⟨⟨3, _⟩, .branch lands, performs_of_opposite opposite reads jump⟩
  | wideBranch lands => exact alone (.wideBranch lands) run
  | tableSwitch lands each => exact alone (.tableSwitch lands each) run
  | lookupSwitch lands each => exact alone (.lookupSwitch lands each) run

end Forms

end ClassSplice.Machine
