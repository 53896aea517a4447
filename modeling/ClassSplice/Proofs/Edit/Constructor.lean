import ClassSplice.Proofs.Edit.Finally
import ClassSplice.Proofs.Pool.Growth

/-!
Where protection starts in constructors without branches. A machine keeps track of the objects on the operand
stack, and of those that constructors were called for. The number of objects that wait for a call leads to the
first call for the object under construction, exactly if no more calls than objects stand anywhere before it,
and as many there (`bodyStart_constructor`).
-/

namespace ClassSplice.Edit.Constructor

open Code (Holds Located Opcode Reads Runs byteAt u16At)

/-! ## The machine -/

inductive Step where
  | loadThis
  | create (type : Pool.Index)
  | dup
  | pop
  | call (method : Pool.Index)

def Step.bytes : Step → List UInt8
  | loadThis => [Opcode.aload0]
  | create type => Opcode.new :: Binary.Writer.u16 type
  | dup => [Opcode.dup]
  | pop => [Opcode.pop]
  | call method => Opcode.invokespecial :: Binary.Writer.u16 method

inductive Object where
  | this
  | fresh (number : Nat)
  deriving DecidableEq

/-- Objects on the stack, how many were created, and those that constructors were called for, from the last
call to the first. -/
structure State where
  stack : List Object
  created : Nat
  initialized : List Object
  deriving DecidableEq

def State.start : State :=
  ⟨[], 0, []⟩

/-- Methods are called with nothing but the receiver, and return nothing. -/
def Step.run (pool : Pool) : Step → State → Option State
  | loadThis, ⟨stack, created, initialized⟩ => some ⟨.this :: stack, created, initialized⟩
  | create _, ⟨stack, created, initialized⟩ =>
    some ⟨.fresh created :: stack, created + 1, initialized⟩
  | dup, ⟨top :: stack, created, initialized⟩ => some ⟨top :: top :: stack, created, initialized⟩
  | pop, ⟨_ :: stack, created, initialized⟩ => some ⟨stack, created, initialized⟩
  | call method, ⟨receiver :: stack, created, initialized⟩ =>
    if methodNameAt pool method = .ok constructorName then some ⟨stack, created, receiver :: initialized⟩
    else some ⟨stack, created, initialized⟩
  | _, ⟨[], _, _⟩ => none

def run (pool : Pool) (steps : List Step) : Option State :=
  steps.foldlM (fun state step => step.run pool state) .start

inductive Takes (pool : Pool) : Step → State → State → Prop
  | loadThis {state : State} : Takes pool .loadThis state { state with stack := .this :: state.stack }
  | create {state : State} {type : Pool.Index} : Takes pool (.create type) state
      { state with stack := .fresh state.created :: state.stack, created := state.created + 1 }
  | dup {top : Object} {stack initialized : List Object} {created : Nat} :
      Takes pool .dup ⟨top :: stack, created, initialized⟩ ⟨top :: top :: stack, created, initialized⟩
  | pop {top : Object} {stack initialized : List Object} {created : Nat} :
      Takes pool .pop ⟨top :: stack, created, initialized⟩ ⟨stack, created, initialized⟩
  | construct {receiver : Object} {stack initialized : List Object} {created : Nat} {method : Pool.Index}
      (named : methodNameAt pool method = .ok constructorName) : Takes pool (.call method)
      ⟨receiver :: stack, created, initialized⟩ ⟨stack, created, receiver :: initialized⟩
  | call {receiver : Object} {stack initialized : List Object} {created : Nat} {method : Pool.Index}
      (other : methodNameAt pool method ≠ .ok constructorName) : Takes pool (.call method)
      ⟨receiver :: stack, created, initialized⟩ ⟨stack, created, initialized⟩

variable {pool : Pool} {code : Code} {step : Step} {steps front back : List Step} {state state' : State}
  {method : Pool.Index} {pos : Nat}

theorem Step.run_eq_some : step.run pool state = some state' ↔ Takes pool step state state' := by
  constructor
  · intro ran
    obtain ⟨stack, created, initialized⟩ := state
    cases step with
    | loadThis =>
        cases ran
        exact .loadThis
    | create type =>
        cases ran
        exact .create
    | dup =>
        cases stack with
        | nil => cases ran
        | cons top stack =>
            cases ran
            exact .dup
    | pop =>
        cases stack with
        | nil => cases ran
        | cons top stack =>
            cases ran
            exact .pop
    | call method =>
        cases stack with
        | nil => cases ran
        | cons receiver stack =>
            rw [Step.run] at ran
            split at ran
            · rename_i named
              cases ran
              exact .construct named
            · rename_i other
              cases ran
              exact .call other
  · intro takes
    cases takes with
    | loadThis | create | dup | pop => rfl
    | construct named => exact if_pos named
    | call other => exact if_neg other

theorem run_append : run pool (front ++ back) = some state' ↔
    ∃ state, run pool front = some state ∧
      back.foldlM (fun state step => step.run pool state) state = some state' := by
  rw [run, List.foldlM_append, Option.bind_eq_bind, Option.bind_eq_some_iff]
  rfl

theorem run_concat : run pool (steps ++ [step]) = some state' ↔
    ∃ state, run pool steps = some state ∧ Takes pool step state state' := by
  rw [run_append]
  refine exists_congr fun state => and_congr_right fun _ => ?_
  rw [← Step.run_eq_some, List.foldlM_cons]
  simp only [List.foldlM_nil, bind_pure]

/-! ## Objects -/

def State.objects (state : State) : List Object :=
  .this :: (List.range state.created).map .fresh

theorem Object.fresh_injective : Function.Injective Object.fresh := by
  rintro _ _ ⟨⟩
  rfl

/-- What is on the stack exists, and constructors are called for what exists. -/
structure State.Known (state : State) : Prop where
  stack : state.stack ⊆ state.objects
  initialized : state.initialized ⊆ state.objects

theorem Takes.known (takes : Takes pool step state state') (known : state.Known) : state'.Known := by
  obtain ⟨stacked, called⟩ := known
  cases takes with
  | loadThis => exact ⟨List.cons_subset.2 ⟨List.mem_cons_self, stacked⟩, called⟩
  | @create state type =>
      have more : state.objects ⊆ (⟨.fresh state.created :: state.stack, state.created + 1,
          state.initialized⟩ : State).objects :=
        List.cons_subset_cons _ (List.map_subset _ (List.range_subset.2 (Nat.le_succ _)))
      have new : state.created ∈ List.range (state.created + 1) := List.mem_range.2 (Nat.lt_succ_self _)
      refine ⟨List.cons_subset.2 ⟨?_, List.Subset.trans stacked more⟩, List.Subset.trans called more⟩
      exact List.mem_cons_of_mem _ (List.mem_map_of_mem new)
  | dup => exact ⟨List.cons_subset.2 ⟨(List.cons_subset.1 stacked).1, stacked⟩, called⟩
  | pop | call => exact ⟨(List.cons_subset.1 stacked).2, called⟩
  | construct =>
      obtain ⟨receiver, rest⟩ := List.cons_subset.1 stacked
      exact ⟨rest, List.cons_subset.2 ⟨receiver, called⟩⟩

theorem known_of_run (ran : run pool steps = some state) : state.Known := by
  induction steps using List.reverseRecOn generalizing state with
  | nil =>
      cases ran
      exact ⟨List.nil_subset _, List.nil_subset _⟩
  | append_singleton steps step ih =>
      obtain ⟨before, ran, takes⟩ := run_concat.1 ran
      exact takes.known (ih ran)

theorem Takes.suffix (takes : Takes pool step state state') : state.initialized <:+ state'.initialized := by
  cases takes with
  | construct => exact List.suffix_cons _ _
  | loadThis | create | dup | pop | call => exact List.suffix_rfl

theorem suffix_of_prefix (ran : run pool steps = some state) (before : front <+: steps)
    (ran' : run pool front = some state') : state'.initialized <:+ state.initialized := by
  induction steps using List.reverseRecOn generalizing state with
  | nil =>
      obtain rfl := List.prefix_nil.1 before
      cases ran.symm.trans ran'
      exact List.suffix_rfl
  | append_singleton steps step ih =>
      obtain rfl | within := List.prefix_concat_iff.1 before
      · cases ran.symm.trans ran'
        exact List.suffix_rfl
      · obtain ⟨middle, ran, takes⟩ := run_concat.1 ran
        exact (ih ran within).trans takes.suffix

/-! ## Calls and objects -/

def State.InPace (state : State) : Prop :=
  state.initialized.length ≤ state.created

instance (state : State) : Decidable state.InPace :=
  inferInstanceAs (Decidable (_ ≤ _))

/-- Nowhere are there more constructor calls than objects that were created before. -/
def KeepsPace (pool : Pool) (steps : List Step) : Prop :=
  ∀ front, front <+: steps → ∀ state, run pool front = some state → state.InPace

section Once

variable (ran : run pool steps = some state) (other : .this ∉ state.initialized)
  (once : state.initialized.Nodup)

include ran other

theorem subset_fresh : state.initialized ⊆ (List.range state.created).map .fresh := by
  intro object member
  rcases List.mem_cons.1 ((known_of_run ran).initialized member) with rfl | created
  · exact absurd member other
  · exact created

include once

theorem inPace_of_once : state.InPace := by
  have short := (once.subperm (subset_fresh ran other)).length_le
  rwa [List.length_map, List.length_range] at short

theorem keepsPace_of_once : KeepsPace pool steps := by
  intro front before state' ran'
  have suffix := suffix_of_prefix ran before ran'
  exact inPace_of_once ran' (mt (suffix.subset ·) other) (once.sublist suffix.sublist)

theorem length_eq_iff_of_once : state.initialized.length = state.created ↔
    ∀ number < state.created, .fresh number ∈ state.initialized := by
  have inside := once.subperm (subset_fresh ran other)
  have size : ((List.range state.created).map Object.fresh).length = state.created := by simp
  constructor
  · intro same number created
    have all := inside.perm_of_length_le (by rw [size, same])
    exact all.mem_iff.2 (List.mem_map_of_mem (List.mem_range.2 created))
  · intro all
    refine Nat.le_antisymm (size ▸ inside.length_le) ?_
    have back : (List.range state.created).map Object.fresh ⊆ state.initialized := by
      intro object member
      obtain ⟨number, created, rfl⟩ := List.mem_map.1 member
      exact all number (List.mem_range.1 created)
    have long := ((List.nodup_range.map Object.fresh_injective).subperm back).length_le
    rwa [size] at long

end Once

theorem keepsPace_concat (pace : KeepsPace pool (steps ++ [step])) : KeepsPace pool steps :=
  fun front before => pace front (before.trans (List.prefix_append _ _))

theorem keepsPace_or_exists (pool : Pool) (steps : List Step) : KeepsPace pool steps ∨
    ∃ front step back state state', steps = front ++ step :: back ∧ KeepsPace pool front ∧
      run pool front = some state ∧ Takes pool step state state' ∧ ¬ state'.InPace := by
  induction steps using List.reverseRecOn with
  | nil =>
      refine .inl fun front before state ran => ?_
      obtain rfl := List.prefix_nil.1 before
      cases ran
      exact Nat.le_refl 0
  | append_singleton steps step ih =>
      rcases ih with pace | ⟨front, first, back, state, state', rfl, rest⟩
      · by_cases all : KeepsPace pool (steps ++ [step])
        · exact .inl all
        · simp only [KeepsPace, not_forall] at all
          obtain ⟨front, before, state', ran, out⟩ := all
          obtain rfl | within := List.prefix_concat_iff.1 before
          · obtain ⟨state, ran, takes⟩ := run_concat.1 ran
            exact .inr ⟨steps, step, [], state, state', rfl, pace, ran, takes, out⟩
          · exact absurd (pace front within state' ran) out
      · exact .inr ⟨front, first, back ++ [step], state, state', by simp, rest⟩

/-! ## Code -/

def size (steps : List Step) : Nat :=
  (steps.flatMap Step.bytes).length

def placed (pos : Nat) : List Step → List (Nat × Located)
  | [] => []
  | step :: steps =>
    (pos, ⟨step.bytes.length, .plain step.bytes⟩) :: placed (pos + step.bytes.length) steps

theorem placed_append : placed pos (front ++ back) = placed pos front ++ placed (pos + size front) back := by
  induction front generalizing pos with
  | nil => rfl
  | cons step front ih => simp [placed, ih, size, Nat.add_assoc]

theorem Step.reads {code : Array UInt8} (held : Holds code pos step.bytes) :
    Reads code pos ⟨step.bytes.length, .plain step.bytes⟩ := by
  have word (index : Pool.Index) : (Binary.Writer.u16 index).length + 1 = 3 := rfl
  cases step with
  | loadThis | dup | pop => exact reads_single (by decide +kernel) (by decide) held
  | create | call => exact reads_fixed (by rw [word]; decide +kernel) (by decide) held

theorem runs_placed {code : Array UInt8} (held : Holds code pos (steps.flatMap Step.bytes)) :
    Runs code pos (placed pos steps) (pos + size steps) := by
  induction steps generalizing pos with
  | nil => exact .done pos
  | cons step steps ih =>
      rw [List.flatMap_cons, Code.holds_append] at held
      have rest := ih held.2
      have total : size (step :: steps) = step.bytes.length + size steps := by simp [size]
      rw [total, ← Nat.add_assoc]
      exact .step (Step.reads held.1) rest

def IsVoid (pool : Pool) (method : Pool.Index) : Prop :=
  ∃ owner member isInterface name descriptor text,
    pool.get method = .ok (.methodRef owner member isInterface) ∧
    pool.get member = .ok (.nameAndType name descriptor) ∧
    pool.textAt name = .ok text ∧ pool.textAt descriptor = .ok "()V"

theorem IsVoid.exists_name (void : IsVoid pool method) : ∃ text, methodNameAt pool method = .ok text := by
  obtain ⟨_, _, _, _, _, text, got, got', named, _⟩ := void
  exact ⟨text, by simp only [methodNameAt, got, ok_bind, got', named]⟩

/-! ## The scan -/

def State.pending (state : State) : Nat :=
  state.created - state.initialized.length

section Scan

variable {starts : List Nat}

theorem behindSuperCall_other {opcode : Opcode} {pending : Nat} (first : byteAt code.bytes pos = .ok opcode)
    (noObject : opcode ≠ Opcode.new) (noCall : opcode ≠ Opcode.invokespecial) :
    behindSuperCall code pool pending (pos :: starts) = behindSuperCall code pool pending starts := by
  rw [behindSuperCall, first]
  simp only [checked, Except.mapError, ok_bind, if_neg noObject, if_neg noCall]

theorem behindSuperCall_new {pending : Nat} (first : byteAt code.bytes pos = .ok Opcode.new) :
    behindSuperCall code pool pending (pos :: starts) = behindSuperCall code pool (pending + 1) starts := by
  rw [behindSuperCall, first]
  rfl

theorem behindSuperCall_call {pending : Nat} {text : String}
    (held : Holds code.bytes pos (Step.call method).bytes) (named : methodNameAt pool method = .ok text) :
    behindSuperCall code pool pending (pos :: starts) =
      if text ≠ constructorName then behindSuperCall code pool pending starts
      else if pending = 0 then .ok (pos + 3)
      else behindSuperCall code pool (pending - 1) starts := by
  obtain ⟨first, operand⟩ := Code.holds_cons.1 held
  have different : Opcode.invokespecial ≠ Opcode.new := by decide
  rw [behindSuperCall, Code.byteAt_of_holds first]
  simp only [checked, Except.mapError, ok_bind, if_neg different, if_true, Code.u16At_u16 operand, named]
  rfl

/-- The scan counts what the machine does, up to the first call that finds no object to wait for it. -/
theorem behindSuperCall_takes (held : Holds code.bytes pos step.bytes)
    (void : ∀ method, step = .call method → IsVoid pool method) (takes : Takes pool step state state')
    (inPace : state.InPace) :
    behindSuperCall code pool state.pending (pos :: starts) =
      if state'.InPace then behindSuperCall code pool state'.pending starts else .ok (pos + 3) := by
  cases takes with
  | loadThis | dup | pop =>
      refine Eq.trans ?_ (if_pos inPace).symm
      exact behindSuperCall_other (Code.byteAt_of_holds held) (by decide) (by decide)
  | create =>
      have first := Code.byteAt_of_holds (Code.holds_cons.1 held).1
      refine Eq.trans ?_ (if_pos (Nat.le_succ_of_le inPace)).symm
      rw [behindSuperCall_new first, State.pending, State.pending, Nat.succ_sub inPace]
  | @construct receiver stack initialized created method named =>
      rw [behindSuperCall_call held named, if_neg (not_not_intro rfl)]
      by_cases waits : initialized.length < created
      · have some : State.pending ⟨receiver :: stack, created, initialized⟩ ≠ 0 :=
          Nat.sub_ne_zero_of_lt waits
        have inPace' : State.InPace ⟨stack, created, receiver :: initialized⟩ := waits
        rw [if_neg some, if_pos inPace']
        rfl
      · have none : State.pending ⟨receiver :: stack, created, initialized⟩ = 0 :=
          Nat.sub_eq_zero_of_le (Nat.le_of_not_lt waits)
        have out : ¬ State.InPace ⟨stack, created, receiver :: initialized⟩ := waits
        rw [if_pos none, if_neg out]
  | call other =>
      obtain ⟨text, named⟩ := (void _ rfl).exists_name
      have different : text ≠ constructorName := by
        rintro rfl
        exact other named
      refine Eq.trans ?_ (if_pos inPace).symm
      rw [behindSuperCall_call held named, if_pos different]
      rfl

theorem behindSuperCall_of_keepsPace (held : Holds code.bytes 0 (steps.flatMap Step.bytes))
    (void : ∀ method, .call method ∈ steps → IsVoid pool method) (ran : run pool steps = some state)
    (pace : KeepsPace pool steps) :
    behindSuperCall code pool 0 ((placed 0 steps).map Prod.fst ++ starts) =
      behindSuperCall code pool state.pending starts := by
  -- On the steps from the last one, so that the scan in front of it is known.
  induction steps using List.reverseRecOn generalizing state starts with
  | nil =>
      cases ran
      rfl
  | append_singleton steps step ih =>
      obtain ⟨before, ran', takes⟩ := run_concat.1 ran
      rw [List.flatMap_append, Code.holds_append, List.flatMap_singleton, Nat.zero_add] at held
      have inPace := pace _ List.prefix_rfl state ran
      have inPace' := pace _ (List.prefix_append _ _) before ran'
      have void' (method : Pool.Index) (same : step = .call method) : IsVoid pool method :=
        void method (by simp [same])
      rw [placed_append, List.map_append, List.append_assoc,
        ih held.1 (fun method member => void method (List.mem_append_left _ member)) ran'
          (keepsPace_concat pace)]
      rw [Nat.zero_add]
      exact (behindSuperCall_takes held.2 void' takes inPace').trans (if_pos inPace)

end Scan

/-! ## Where protection starts -/

structure Spells (pool : Pool) (code : Code) (steps : List Step) : Prop where
  bytes : code.bytes.toList = steps.flatMap Step.bytes ++ [Opcode.vreturn]
  void : ∀ method, .call method ∈ steps → IsVoid pool method

theorem Spells.holds (spells : Spells pool code steps) :
    Holds code.bytes 0 (steps.flatMap Step.bytes) ∧ Holds code.bytes (size steps) [Opcode.vreturn] := by
  have held : Holds code.bytes 0 (steps.flatMap Step.bytes ++ [Opcode.vreturn]) :=
    ⟨[], [], by simp [spells.bytes], rfl⟩
  rw [Code.holds_append, Nat.zero_add] at held
  exact held

theorem Spells.bodyStart (spells : Spells pool code steps) : bodyStart code pool true =
    behindSuperCall code pool 0 ((placed 0 steps).map Prod.fst ++ [size steps]) := by
  obtain ⟨heldSteps, heldReturn⟩ := spells.holds
  have last : Reads code.bytes (size steps) ⟨1, .plain [Opcode.vreturn]⟩ :=
    reads_single (by decide +kernel) (by decide) heldReturn
  have first := runs_placed heldSteps
  rw [Nat.zero_add] at first
  have total : size steps + 1 = code.bytes.size := by
    rw [← Array.length_toList, spells.bytes]
    simp [size]
  have whole := first.append (Runs.single last)
  rw [total] at whole
  rw [Edit.bodyStart, Code.instructionStarts_of_decode (Code.decode_of_runs whole)]
  simp [checked, Except.mapError, ok_bind]

theorem bodyStart_of_keepsPace (spells : Spells pool code steps) (ran : run pool steps = some state)
    (pace : KeepsPace pool steps) : bodyStart code pool true = .error .missingSuperCall := by
  obtain ⟨heldSteps, heldReturn⟩ := spells.holds
  rw [spells.bodyStart, behindSuperCall_of_keepsPace heldSteps spells.void ran pace]
  exact behindSuperCall_other (Code.byteAt_of_holds heldReturn) (by decide) (by decide)

theorem bodyStart_of_out (spells : Spells pool code (front ++ step :: back)) (pace : KeepsPace pool front)
    (ran : run pool front = some state) (takes : Takes pool step state state') (out : ¬ state'.InPace) :
    bodyStart code pool true = .ok (size front + 3) := by
  have held := spells.holds.1
  rw [List.flatMap_append, List.flatMap_cons, Code.holds_append, Code.holds_append, Nat.zero_add] at held
  obtain ⟨heldFront, heldStep, _⟩ := held
  have void (method : Pool.Index) (member : .call method ∈ front) : IsVoid pool method :=
    spells.void method (List.mem_append_left _ member)
  have void' (method : Pool.Index) (same : step = .call method) : IsVoid pool method :=
    spells.void method (by simp [same])
  rw [spells.bodyStart, placed_append, List.map_append, List.append_assoc,
    behindSuperCall_of_keepsPace heldFront void ran pace, Nat.zero_add]
  have inPace := pace _ List.prefix_rfl state ran
  exact (behindSuperCall_takes heldStep void' takes inPace).trans (if_neg out)

theorem size_append : size (front ++ back) = size front + size back := by
  rw [size, List.flatMap_append, List.length_append]
  rfl

theorem eq_nil_of_size (empty : size steps = 0) : steps = [] := by
  cases steps with
  | nil => rfl
  | cons step steps => cases step <;> simp [size, Step.bytes] at empty

theorem eq_of_size {front' back' : List Step} (same : front ++ back = front' ++ back')
    (level : size front = size front') : front = front' := by
  rcases List.append_eq_append_iff.1 same with ⟨between, rfl, _⟩ | ⟨between, rfl, _⟩
  all_goals
    rw [size_append] at level
    have empty : size between = 0 := by omega
    rw [eq_nil_of_size empty, List.append_nil]

theorem Takes.unique {other : State} (takes : Takes pool step state state')
    (takes' : Takes pool step state other) : state' = other :=
  Option.some.inj ((Step.run_eq_some.2 takes).symm.trans (Step.run_eq_some.2 takes'))

theorem keepsPace_of_bodyStart (spells : Spells pool code steps)
    (found : bodyStart code pool true = .error .missingSuperCall) : KeepsPace pool steps := by
  rcases keepsPace_or_exists pool steps with pace | ⟨_, _, _, _, _, rfl, pace, ran, takes, out⟩
  · exact pace
  · cases found.symm.trans (bodyStart_of_out spells pace ran takes out)

section Own

variable {stack initialized : List Object} {created : Nat}

theorem bodyStart_eq_ok_iff (spells : Spells pool code (front ++ .call method :: back))
    (executed : run pool (front ++ .call method :: back) = some state)
    (named : methodNameAt pool method = .ok constructorName)
    (ran : run pool front = some ⟨.this :: stack, created, initialized⟩) :
    bodyStart code pool true = .ok (size front + 3) ↔
      KeepsPace pool front ∧ initialized.length = created := by
  constructor
  · intro found
    rcases keepsPace_or_exists pool (front ++ .call method :: back) with
      pace | ⟨front', step, back', before, after, same, pace, ran', takes, out⟩
    · cases found.symm.trans (bodyStart_of_keepsPace spells executed pace)
    · -- The first call too many is where the scan has stopped.
      have there := bodyStart_of_out (same ▸ spells) pace ran' takes out
      have level : size front + 3 = size front' + 3 := Except.ok.inj (found.symm.trans there)
      obtain rfl := eq_of_size same (Nat.add_right_cancel level)
      cases List.append_cancel_left same
      cases ran.symm.trans ran'
      obtain rfl := takes.unique (.construct named)
      have within : initialized.length ≤ created := pace _ List.prefix_rfl _ ran
      have beyond : ¬ initialized.length + 1 ≤ created := out
      exact ⟨pace, by omega⟩
  · rintro ⟨pace, rfl⟩
    exact bodyStart_of_out spells pace ran (.construct named) (Nat.not_succ_le_self _)

end Own

def ownPool : Pool :=
  [.text "A", .classRef 1, .text constructorName, .text "()V", .nameAndType 3 4, .methodRef 2 5 false].foldl
    Pool.push .empty

theorem ownPool_eq : ∃ indices, ownPool = ⟨⟨#[(1, .text "A"), (2, .classRef 1),
    (3, .text constructorName), (4, .text "()V"), (5, .nameAndType 3 4), (6, .methodRef 2 5 false)], 7⟩,
    indices⟩ :=
  ⟨_, rfl⟩

theorem isVoid_ownPool : IsVoid ownPool 6 ∧ methodNameAt ownPool 6 = .ok constructorName := by
  obtain ⟨indices, same⟩ := ownPool_eq
  rw [same]
  refine ⟨⟨2, 5, false, 3, 4, constructorName, ?_, ?_, ?_, ?_⟩, ?_⟩
  all_goals cbv

/-- In a constructor without branches that runs, protection starts behind a call for the object under
construction exactly if there are no more calls than objects anywhere in front of it, and as many in all.
Where no constructor is called for an object twice, that means that one was called for each object. Without
any such call a constructor is refused, unless there are more calls than objects somewhere. -/
theorem bodyStart_constructor (spells : Spells pool code steps) (executed : run pool steps = some state) :
    (∀ before method after stack created initialized, steps = before ++ .call method :: after →
      methodNameAt pool method = .ok constructorName →
      run pool before = some ⟨.this :: stack, created, initialized⟩ →
      (bodyStart code pool true = .ok (size before + 3) ↔
        KeepsPace pool before ∧ initialized.length = created) ∧
      (.this ∉ initialized → initialized.Nodup → (bodyStart code pool true = .ok (size before + 3) ↔
        ∀ number < created, .fresh number ∈ initialized))) ∧
    (bodyStart code pool true = .error .missingSuperCall ↔ KeepsPace pool steps) ∧
    (.this ∉ state.initialized → state.initialized.Nodup →
      bodyStart code pool true = .error .missingSuperCall) := by
  refine ⟨?_, ⟨keepsPace_of_bodyStart spells, bodyStart_of_keepsPace spells executed⟩, ?_⟩
  · rintro before method after stack created initialized rfl named ran
    have found := bodyStart_eq_ok_iff spells executed named ran
    refine ⟨found, fun other once => found.trans ?_⟩
    rw [and_iff_right (keepsPace_of_once ran other once)]
    exact length_eq_iff_of_once ran other once
  · intro other once
    exact bodyStart_of_keepsPace spells executed (keepsPace_of_once executed other once)

theorem bodyStart_constructor_other : ∃ state,
    run ownPool [.create 2, .dup, .call 6, .pop, .loadThis, .call 6] = some state ∧
    bodyStart ⟨2, 1, #[0xbb, 0, 2, 0x59, 0xb7, 0, 6, 0x57, 0x2a, 0xb7, 0, 6, 0xb1], [], []⟩ ownPool true =
      .ok 12 := by
  obtain ⟨void, named⟩ := isVoid_ownPool
  have spells : Spells ownPool
      ⟨2, 1, #[0xbb, 0, 2, 0x59, 0xb7, 0, 6, 0x57, 0x2a, 0xb7, 0, 6, 0xb1], [], []⟩
      [.create 2, .dup, .call 6, .pop, .loadThis, .call 6] := by
    refine ⟨rfl, fun method member => ?_⟩
    obtain rfl : method = 6 := by simpa using member
    exact void
  have front : run ownPool [.create 2, .dup, .call 6, .pop, .loadThis] =
      some ⟨[.this], 1, [.fresh 0]⟩ := by
    simp [run, Step.run, State.start, named]
  have whole : run ownPool [.create 2, .dup, .call 6, .pop, .loadThis, .call 6] =
      some ⟨[], 1, [.this, .fresh 0]⟩ := by
    simp [run, Step.run, State.start, named]
  have called := ((bodyStart_constructor spells whole).1 _ 6 [] _ _ _ rfl named front).2
  refine ⟨_, whole, (called (by decide) (by decide)).2 ?_⟩
  intro number created
  obtain rfl := Nat.lt_one_iff.1 created
  exact List.mem_cons_self

end ClassSplice.Edit.Constructor
