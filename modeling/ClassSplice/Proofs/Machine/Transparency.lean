import ClassSplice.Proofs.Code.Reach
import ClassSplice.Proofs.Machine.Subroutine
import ClassSplice.Proofs.Machine.Tracking

namespace ClassSplice

open Code (Buffer Handler Instruction Listing Located Opcode Reads Weaving Woven)
open Descriptor (FieldType ValueKind)

namespace Machine

/-- A body of a method with this result, whose offsets are those of instructions and whose local
variables are below the maximum. -/
structure Proper (code : Code) (returns : Option ValueKind) (body : Listing) : Prop where
  decoded : Listing.decode code.bytes = .ok body
  aimed : body.Aimed
  handlers : ∀ handler ∈ code.handlers, handler.Fits body
  returns : ∀ entry ∈ body.entries, ∀ opcode : Opcode, entry.2.instruction = .plain [opcode] →
    opcode.isReturn = true → opcode = returning returns
  below : ∀ entry ∈ body.entries, StaysBelow code.maxLocals.toNat entry.2.instruction

def Place (body : Listing) : Type :=
  { pos : Nat // body.IsBoundary pos }

def Place.pos {body : Listing} (place : Place body) : Nat :=
  place.val

def Place.enter {body : Listing} (weaving : Weaving) (place : Place body) : Nat :=
  weaving.enter place.pos

section Matches

variable {Value Heap : Type} (body : Listing) (weaving : Weaving) (size : Nat)

def Carries (frame frame' : Frame Nat Value Heap Nat) : Prop :=
  ∃ shared : Frame Nat Value Heap (Place body),
    shared.Agrees size Place.pos frame ∧ shared.Agrees size (Place.enter weaving) frame'

structure Matches (one other : State Value Heap) : Prop where
  boundary : body.IsBoundary one.pos
  pos : other.pos = weaving.enter one.pos
  frame : Carries body weaving size one.frame other.frame

end Matches

theorem plain_return {Value Heap Address : Type} {size : Nat} (meaning : Meaning Value Heap size)
    (result : Option ValueKind) (frame : Frame Nat Value Heap Address) :
    meaning.plain [returning result] frame = meaning.leave result frame := by
  have known : accessed? [returning result] = none ∧
      returned? (returning result) = some result := by
    rcases result with _ | kind
    · decide
    · cases kind <;> decide
  unfold Meaning.plain
  simp only [known]

end Machine

namespace Edit

open Machine

section Steps

variable {Value Heap : Type} {code code' : Code} {returns : Option ValueKind}
  {result entry pos here : Nat} {body old : Listing} {weaving : Weaving} {located : Located}
  {meaning : Meaning Value Heap code.maxLocals.toNat}
  (epilogue : Epilogue code code' returns result body old weaving entry)
  (proper : Proper code returns body)

include epilogue

theorem Epilogue.member {entry : Nat × Located} (member : entry ∈ body.entries) :
    entry ∈ old.entries :=
  Array.mem_toList_iff.1 (epilogue.front.subset (Array.mem_toList_iff.2 member))

theorem Epilogue.travels_to_return (meaning : Meaning Value Heap code.maxLocals.toNat)
    {opcode : Opcode} {length : Nat} (member : (pos, ⟨length, .plain [opcode]⟩) ∈ body.entries)
    (leaves : opcode.isReturn = true) (frame : Frame Nat Value Heap Nat) :
    Travels (meaning.step code') 1 ⟨weaving.enter pos, frame⟩
      ⟨weaving.place entry, frame.push (.address (weaving.place pos))⟩ := by
  have run := epilogue.woven.inserted (.inr ⟨_, epilogue.member member⟩)
  rcases epilogue.calls.returns member ⟨opcode, rfl, leaves⟩ with call | call
  · rw [call] at run
    obtain _ | ⟨reads, done⟩ := run
    generalize weaving.place pos = behind at done ⊢
    obtain _ | _ := done
    exact .one (step_goes reads rfl rfl)
  · rw [call] at run
    obtain _ | ⟨reads, done⟩ := run
    generalize weaving.place pos = behind at done ⊢
    obtain _ | _ := done
    exact .one (step_goes reads rfl rfl)

include proper

theorem Epilogue.boundary (boundary : body.IsBoundary pos) : old.IsBoundary pos := by
  obtain ⟨base, decoded⟩ := epilogue.decoded
  exact boundary.of_prefix proper.decoded decoded epilogue.front

theorem Epilogue.dispatch (member : (pos, located) ∈ body.entries)
    (spans : weaving.Spans pos located here) {catches : Pool.Index → Bool} :
    code'.handlers.dispatch catches here =
      (code.handlers.dispatch catches pos).map weaving.enter := by
  obtain ⟨base, decoded⟩ := epilogue.decoded
  have lies : ∀ handler ∈ code.handlers, handler.LiesOn old := by
    intro handler member
    have fits := (proper.handlers handler member).liesOn
    exact ⟨epilogue.boundary proper fits.start, epilogue.boundary proper fits.stop,
      epilogue.boundary proper fits.target⟩
  exact epilogue.woven.dispatch decoded epilogue.handlers lies (epilogue.member member) spans

theorem Epilogue.resume (member : (pos, located) ∈ body.entries)
    (spans : weaving.Spans pos located here) {shared : Frame Nat Value Heap (Place body)}
    {frame frame' : Frame Nat Value Heap Nat}
    (agrees : shared.Agrees code.maxLocals.toNat Place.pos frame)
    (agrees' : shared.Agrees code.maxLocals.toNat (Place.enter weaving) frame')
    {effect : Effect Value Heap (Place body)} {one other : Effect Value Heap Nat}
    (tracks : effect.Tracks Eq code.maxLocals.toNat Place.pos one)
    (tracks' : effect.Tracks (weaving.Lands old) code.maxLocals.toNat (Place.enter weaving) other)
    (aimed : ∀ target next, one = .goes (.jump target) next →
      target ∈ located.instruction.targets) :
    Next.Related (Matches body weaving code.maxLocals.toNat)
      (meaning.resume code pos (pos + located.length) frame one)
      (meaning.resume code' here (weaving.enter (pos + located.length)) frame' other) := by
  cases tracks with
  | onward first =>
      cases tracks' with
      | onward second =>
          rw [resume_goes rfl, resume_goes rfl]
          exact .on ⟨Code.isBoundary_behind proper.decoded member, rfl, _, first, second⟩
  | jump same first =>
      cases tracks' with
      | jump lands second =>
          obtain ⟨goal, leads, boundary⟩ := proper.aimed _ member _ (aimed _ _ rfl)
          have leads' := lands goal (epilogue.boundary proper boundary) (same.trans leads)
          rw [resume_goes (show Move.goal _ (.jump _) = _ from leads),
            resume_goes (show Move.goal _ (.jump _) = _ from leads')]
          exact .on ⟨boundary, rfl, _, first, second⟩
  | @back place _ _ first =>
      cases tracks' with
      | back second =>
          rw [resume_goes rfl, resume_goes rfl]
          exact .on ⟨place.2, rfl, _, first, second⟩
  | @raises exception heap =>
      cases tracks'
      unfold Meaning.resume
      dsimp only
      rw [epilogue.dispatch proper member spans]
      cases found : code.handlers.dispatch (meaning.catches · exception heap) pos with
      | none => exact .out
      | some target =>
          obtain ⟨handler, listed, rfl⟩ := Code.HandlerTable.mem_of_dispatch found
          have fits := proper.handlers handler listed
          exact .on ⟨fits.target.1, rfl, _, agrees.caught exception heap,
            agrees'.caught exception heap⟩
  | returns =>
      cases tracks'
      exact .out
  | stuck =>
      cases tracks'
      exact .out

theorem Epilogue.comes_from_place (member : (pos, located) ∈ body.entries)
    {shared : Frame Nat Value Heap (Place body)} {frame frame' : Frame Nat Value Heap Nat}
    (agrees : shared.Agrees code.maxLocals.toNat Place.pos frame)
    (agrees' : shared.Agrees code.maxLocals.toNat (Place.enter weaving) frame') :
    ∃ next, Comes (meaning.step code') ⟨weaving.place pos, frame'⟩ next ∧
      Next.Related (Matches body weaving code.maxLocals.toNat)
        (meaning.step code ⟨pos, frame⟩) next := by
  have woven := epilogue.woven
  have known := epilogue.member member
  have boundary : old.IsBoundary pos := .inr ⟨_, known⟩
  have reads := Code.reads_of_mem proper.decoded member
  have behind := Code.isBoundary_behind proper.decoded member
  have spans : weaving.Spans pos located (weaving.place pos) :=
    ⟨woven.enter_le_place boundary, woven.ordered boundary (epilogue.boundary proper behind)
      (Nat.lt_add_of_pos_right reads.length_pos)⟩
  have below := proper.below _ member
  obtain ⟨located', is, performs⟩ := exists_performs (woven.image known) (woven.body known)
  have still : Code.Image Eq pos located.instruction [(pos, located)] :=
    Code.Image.refl reads.length_eq fun _ => rfl
  have tracks := execute_tracks meaning ⟨_, behind⟩ agrees still below
  have tracks' := execute_tracks meaning ⟨_, behind⟩ agrees' is below
  refine ⟨_, performs frame', ?_⟩
  rw [step_of_reads reads]
  exact epilogue.resume proper member spans agrees agrees' tracks tracks' fun target next goes =>
    mem_targets_of_jump meaning goes

theorem Epilogue.comes (meaning : Meaning Value Heap code.maxLocals.toNat)
    {one other : State Value Heap} (known : Matches body weaving code.maxLocals.toNat one other)
    (inside : one.pos < code.bytes.size) :
    ∃ next, Comes (meaning.step code') other next ∧
      Next.Related (Matches body weaving code.maxLocals.toNat) (meaning.step code one) next := by
  obtain ⟨pos, frame⟩ := one
  obtain ⟨_, frame'⟩ := other
  obtain ⟨boundary, rfl, shared, agrees, agrees'⟩ := known
  obtain ⟨located, member⟩ : ∃ located, (pos, located) ∈ body.entries := by
    rcases boundary with rfl | found
    · rw [(Code.decode_eq_ok.1 proper.decoded).2] at inside
      exact absurd inside (Nat.lt_irrefl _)
    · exact found
  by_cases leaves : located.instruction.IsReturn
  · obtain ⟨length, instruction⟩ := located
    obtain ⟨opcode, rfl, isReturn⟩ := leaves
    obtain rfl := proper.returns _ member _ rfl isReturn
    have front := epilogue.travels_to_return meaning member isReturn frame'
    by_cases stuck : meaning.leave returns frame' = .stuck
    · have ends := front.ends (subroutine_stuck meaning frame' epilogue.subroutine (Nat.le_refl _)
        epilogue.apart epilogue.fits stuck)
      have before := (leave_stuck_iff meaning agrees returns).2
        ((leave_stuck_iff meaning agrees' returns).1 stuck)
      have stops : meaning.step code ⟨pos, frame⟩ = .out .stuck :=
        step_stuck (Code.reads_of_mem proper.decoded member)
          ((plain_return meaning returns frame).trans before)
      refine ⟨_, .out ends, ?_⟩
      rw [stops]
      exact .out
    · obtain ⟨count, frame'', back, same⟩ := subroutine_travels meaning frame' epilogue.subroutine
        (Nat.le_refl _) epilogue.apart epilogue.fits stuck
      obtain ⟨next, comes, related⟩ := epilogue.comes_from_place proper member agrees
        (same.trans agrees')
      exact ⟨next, (front.trans back).comes comes, related⟩
  · have blank : weaving.inserted pos = [] := by
      apply epilogue.calls.others (epilogue.boundary proper boundary)
      intro located' member' leaves'
      cases Code.located_unique proper.decoded member member'
      exact leaves leaves'
    rw [epilogue.woven.enter_eq_place (epilogue.boundary proper boundary) blank]
    exact epilogue.comes_from_place proper member agrees agrees'

theorem Epilogue.follows (meaning : Meaning Value Heap code.maxLocals.toNat)
    {start : State Value Heap}
    (inside : ∀ state, Reaches (meaning.step code) start state → state.pos < code.bytes.size) :
    Follows (meaning.step code) (meaning.step code') fun one other =>
      Reaches (meaning.step code) start one ∧
        Matches body weaving code.maxLocals.toNat one other := by
  intro one other ⟨reached, known⟩
  obtain ⟨next, comes, related⟩ := epilogue.comes proper meaning known (inside one reached)
  refine ⟨next, comes, ?_⟩
  cases steps : meaning.step code one with
  | on last =>
      rw [steps] at related
      cases related with
      | on known => exact .on ⟨reached.on steps, known⟩
  | out outcome =>
      rw [steps] at related
      cases related
      exact .out

theorem Epilogue.matches_start (meaning : Meaning Value Heap code.maxLocals.toNat)
    (arguments : List Value) (heap : Heap) : Matches body weaving code.maxLocals.toNat
      (meaning.start arguments heap) (meaning.start arguments heap) :=
  ⟨Code.isBoundary_zero proper.decoded, epilogue.woven.first.symm, _,
    entered_agrees meaning Place.pos arguments heap, entered_agrees meaning _ arguments heap⟩

end Steps

/-- With nothing to run behind it, a body still comes to what it came to, or runs forever. -/
theorem insertAfter_transparent {editor editor' : Editor} {index : Nat}
    (done : outcome (insertAfter assemble index "" false) editor = (.ok (), editor')) :
    ∃ context code code' pool, outcome (contextAt index) editor = (.ok context, editor) ∧
      Replaced editor editor' index code code' pool ∧
      ∀ body, Proper code (context.type.returns.map FieldType.kind) body →
        ∀ {Value Heap : Type} (meaning : Meaning Value Heap code.maxLocals.toNat)
          (arguments : List Value) (heap : Heap),
          (∀ state, Reaches (meaning.step code) (meaning.start arguments heap) state →
            state.pos < code.bytes.size) →
          (∀ result, Ends (meaning.step code) (meaning.start arguments heap) result ↔
            Ends (meaning.step code') (meaning.start arguments heap) result) ∧
          (Forever (meaning.step code) (meaning.start arguments heap) ↔
            Forever (meaning.step code') (meaning.start arguments heap)) := by
  obtain ⟨context, code, code', pool, result, known, replaced, built⟩ :=
    insertAfter_epilogue done
  refine ⟨context, code, code', pool, known, replaced, ?_⟩
  intro body proper Value Heap meaning arguments heap inside
  obtain ⟨old, weaving, entry, epilogue⟩ := built body proper.decoded
  have follows := epilogue.follows proper meaning inside
  have known := epilogue.matches_start proper meaning arguments heap
  exact ⟨fun result => follows.ends_iff ⟨.refl, known⟩, follows.forever_iff ⟨.refl, known⟩⟩

def operandPair (operands : List (Option Int)) : Int × Int :=
  ((operands.getD 0 none).getD 0, (operands.getD 1 none).getD 0)

def constants (size : Nat) : Meaning (Option Int) Unit size where
  kind value := if value.isSome then .int else .reference
  null := none
  act bytes frame :=
    if bytes = [Opcode.aconstNull] then .goes (frame.push (.value none))
    else if bytes = [0x04] then .goes (frame.push (.value (some 1)))
    else .stuck
  conditions :=
    { taken opcode operands := Code.comparisons.taken opcode (operandPair operands)
      key operands := Code.comparisons.key (operandPair operands)
      opposite opposite operands := Code.comparisons.opposite opposite (operandPair operands) }
  thrown value heap := (value, heap)
  catches _ _ _ := true
  kind_null := rfl
  act_null _ := if_pos rfl
  act_map moved bytes frame := by
    split_ifs <;> rfl

def leftLoop : Code :=
  ⟨1, 0, #[0x04, 0x99, 0xff, 0xff, 0xb1], [⟨0, 1, 4, 0⟩], []⟩

def leftLoopListing : Listing :=
  ⟨#[(0, ⟨1, .plain [0x04]⟩), (1, ⟨3, .branch 0x99 0⟩), (4, ⟨1, .plain [0xb1]⟩)], 5⟩

set_option maxRecDepth 4000 in
theorem proper_leftLoop : Proper leftLoop none leftLoopListing where
  decoded := by cbv
  aimed := by
    intro entry member target named
    simp [leftLoopListing] at member
    rcases member with rfl | rfl | rfl
    · cases named
    · cases List.mem_singleton.1 named
      exact ⟨0, rfl, .inr ⟨⟨1, .plain [0x04]⟩, by simp [leftLoopListing]⟩⟩
    · cases named
  handlers := by
    intro handler member
    cases List.mem_singleton.1 member
    exact ⟨by decide, .inr ⟨⟨1, .plain [0x04]⟩, by simp [leftLoopListing]⟩,
      ⟨.inr ⟨⟨3, .branch 0x99 0⟩, by simp [leftLoopListing]⟩, by decide⟩,
      ⟨.inr ⟨⟨1, .plain [0xb1]⟩, by simp [leftLoopListing]⟩, by decide⟩⟩
  returns := by
    intro entry member opcode same leaves
    simp [leftLoopListing] at member
    rcases member with rfl | rfl | rfl
    · cases same
      cases leaves
    · cases same
    · cases same
      rfl
  below := by
    intro entry member bytes opcode slot same accessed
    simp [leftLoopListing] at member
    rcases member with rfl | rfl | rfl
    · cases same
      cases accessed
    · cases same
    · cases same
      cases accessed

set_option maxRecDepth 4000 in
theorem steps_leftLoop : ∃ second third : Frame Nat (Option Int) Unit Nat,
    (constants 0).step leftLoop ((constants 0).start [] ()) = .on ⟨1, second⟩ ∧
      (constants 0).step leftLoop ⟨1, second⟩ = .on ⟨4, third⟩ ∧
      (constants 0).step leftLoop ⟨4, third⟩ = .out (.returned none ()) := by
  exact ⟨_, _, rfl, rfl, rfl⟩

theorem inside_leftLoop (state : State (Option Int) Unit)
    (reached : Reaches ((constants 0).step leftLoop) ((constants 0).start [] ()) state) :
    state.pos < leftLoop.bytes.size := by
  obtain ⟨second, third, pushes, leaves, returns⟩ := steps_leftLoop
  obtain ⟨count, _ | ⟨steps, _ | ⟨steps', _ | ⟨steps'', rest⟩⟩⟩⟩ := reached
  · decide
  · cases pushes.symm.trans steps
    show 1 < 5
    decide
  · cases pushes.symm.trans steps
    cases leaves.symm.trans steps'
    show 4 < 5
    decide
  · cases pushes.symm.trans steps
    cases leaves.symm.trans steps'
    cases returns.symm.trans steps''

def emptySubroutine : Buffer :=
  ⟨#[0x4b, 0x01, 0x4c, 0xa9, 0x00], 1, 2, 2, []⟩

set_option maxRecDepth 4000 in
theorem compileAfter_leftLoop :
    outcome (compileAfter assemble "" ⟨"C", ⟨[], none⟩, true⟩ leftLoop false) smallPool =
      (.ok (0, emptySubroutine), smallPool) := by
  have stored : (⟨#[], 2, 2, 2, []⟩ : Buffer).addStore 0 .reference =
      .ok ⟨#[0x4b], 1, 2, 2, []⟩ := by
    rfl
  have kept : ((⟨#[0x4b], 1, 2, 2, []⟩ : Buffer).addOpcode Opcode.aconstNull).addStore 1 .reference =
      .ok ⟨#[0x4b, 0x01, 0x4c], 1, 2, 2, []⟩ := by
    rfl
  have assembled {scope : Assembler.Scope} :
      outcome (assemble "" scope ⟨#[0x4b, 0x01, 0x4c], 1, 2, 2, []⟩) smallPool =
        (.ok (scope, ⟨#[0x4b, 0x01, 0x4c], 1, 2, 2, []⟩), smallPool) :=
    Assembler.assemble_empty ..
  have returned : (⟨#[0x4b, 0x01, 0x4c], 1, 2, 2, []⟩ : Buffer).addRet 0 = .ok emptySubroutine := by
    rfl
  have declared : Assembler.Scope.bindReturn [] ⟨#[], 0, 0, 1, []⟩ none =
      .ok (1, [("$_", ⟨1, Assembler.Scope.noReturn⟩)], ⟨#[], 0, 0, 2, []⟩) := by
    rfl
  unfold compileAfter
  refine outcome_bind_eq_ok.2 ⟨_, _, outcome_demand_eq_ok.2 ⟨declared, rfl⟩, ?_⟩
  refine outcome_bind_eq_ok.2 ⟨_, _, rfl, ?_⟩
  refine outcome_bind_eq_ok.2 ⟨_, _, ?_, rfl⟩
  refine outcome_bind_eq_ok.2 ⟨_, _, outcome_demand_eq_ok.2 ⟨stored, rfl⟩, ?_⟩
  refine outcome_bind_eq_ok.2 ⟨_, _, outcome_demand_eq_ok.2 ⟨kept, rfl⟩, ?_⟩
  refine outcome_bind_eq_ok.2 ⟨_, _, outcome_compileWith_eq_ok.2 ⟨_, assembled⟩, ?_⟩
  exact outcome_demand_eq_ok.2 ⟨returned, rfl⟩

def leftLoopBefore : Code :=
  ⟨2, 2, #[0x04, 0x99, 0xff, 0xff, 0xb1, 0x4b, 0x01, 0x4c, 0xa9, 0x00], [⟨0, 1, 4, 0⟩], []⟩

def leftLoopAfter : Code :=
  ⟨2, 2, #[0x04, 0x99, 0xff, 0xff, 0xa8, 0x00, 0x04, 0xb1, 0x4b, 0x01, 0x4c, 0xa9, 0x00],
    [⟨0, 1, 4, 0⟩], []⟩

set_option maxRecDepth 4000 in
theorem exists_insertAfter_leftLoop : ∃ editor',
    outcome (insertAfter assemble 0 "" false) (smallClass leftLoop) = (.ok (), editor') := by
  have appended : appendAfter leftLoop 0 0 emptySubroutine false = .ok (5, leftLoopBefore) := by cbv
  have called : callBeforeReturns leftLoopBefore 5 = .ok (1, leftLoopAfter) := by cbv
  exact exists_insertAfter_smallClass rfl rfl compileAfter_leftLoop appended called (by cbv)

theorem insertAfter_transparent_loop : ∃ editor' code' pool,
    outcome (insertAfter assemble 0 "" false) (smallClass leftLoop) = (.ok (), editor') ∧
      Replaced (smallClass leftLoop) editor' 0 leftLoop code' pool ∧
      Ends ((constants 0).step code') ((constants 0).start [] ()) (.returned none ()) := by
  obtain ⟨editor', done⟩ := exists_insertAfter_leftLoop
  obtain ⟨context, code, code', pool, known, replaced, same⟩ := insertAfter_transparent done
  cases known.symm.trans (contextAt_smallClass _)
  obtain rfl := replaced_smallClass rfl replaced
  obtain ⟨second, third, pushes, leaves, returns⟩ := steps_leftLoop
  have ends : Ends ((constants 0).step leftLoop) ((constants 0).start [] ()) (.returned none ()) :=
    ⟨_, ⟨2, .on pushes (.one leaves)⟩, returns⟩
  have alike := same leftLoopListing proper_leftLoop (constants 0) [] () inside_leftLoop
  exact ⟨editor', code', pool, done, replaced, (alike.1 _).1 ends⟩

end Edit
end ClassSplice
