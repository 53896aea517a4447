import ClassSplice.Assembler.Scope
import ClassSplice.Proofs.Assembler.Steps

/-!
Local variable slots that a buffer hands out. They are taken from a mark that only rises (`Takes`), so
that they lie apart from each other and from all slots that were in use before (`Takes.fresh`).

Main statements: `SlotStep.takes_of_runAll` (what any steps hand out) and `Scope.consecutive_bindParameters`
(where parameters lie).
-/

namespace ClassSplice

namespace Code

structure Span where
  first : Nat
  width : Nat
  deriving DecidableEq, Repr

def Span.slots (span : Span) : Finset Nat :=
  Finset.Ico span.first (span.first + span.width)

/-- Spans that follow each other from one slot to another without a gap. -/
inductive Consecutive : Nat → List Span → Nat → Prop
  | nil (slot : Nat) : Consecutive slot [] slot
  | cons {first width stop : Nat} {spans : List Span}
      (rest : Consecutive (first + width) spans stop) :
      Consecutive first (⟨first, width⟩ :: spans) stop

inductive Takes : Nat → List Span → Nat → Prop
  | nil {mark mark' : Nat} (rises : mark ≤ mark') : Takes mark [] mark'
  | cons {mark mark' first width : Nat} {spans : List Span} (rises : mark ≤ first)
      (rest : Takes (first + width) spans mark') : Takes mark (⟨first, width⟩ :: spans) mark'

/-- Spans that lie apart from each other between two marks. -/
structure Fresh (mark : Nat) (spans : List Span) (mark' : Nat) : Prop where
  rises : mark ≤ mark'
  apart : spans.Pairwise fun one other => Disjoint one.slots other.slots
  between : ∀ span ∈ spans, mark ≤ span.first ∧ span.first + span.width ≤ mark'

section Takes

variable {mark mark' mark'' : Nat} {spans more : List Span}

theorem Consecutive.takes (consecutive : Consecutive mark spans mark') : Takes mark spans mark' := by
  induction consecutive with
  | nil => exact .nil (Nat.le_refl _)
  | cons _ ih => exact .cons (Nat.le_refl _) ih

theorem Takes.le (takes : Takes mark spans mark') : mark ≤ mark' := by
  induction takes with
  | nil rises => exact rises
  | cons rises _ ih => omega

theorem Takes.weaken {low : Nat} (takes : Takes mark spans mark') (below : low ≤ mark) :
    Takes low spans mark' := by
  cases takes with
  | nil rises => exact .nil (Nat.le_trans below rises)
  | cons rises rest => exact .cons (Nat.le_trans below rises) rest

theorem Takes.append (first : Takes mark spans mark') (second : Takes mark' more mark'') :
    Takes mark (spans ++ more) mark'' := by
  induction first with
  | nil rises => exact second.weaken rises
  | cons rises _ ih => exact .cons rises (ih second)

theorem Takes.rise {high : Nat} (takes : Takes mark spans mark') (above : mark' ≤ high) :
    Takes mark spans high := by
  have := takes.append (.nil above)
  rwa [List.append_nil] at this

theorem Takes.between (takes : Takes mark spans mark') :
    ∀ span ∈ spans, mark ≤ span.first ∧ span.first + span.width ≤ mark' := by
  induction takes with
  | nil => nofun
  | cons rises rest ih =>
      intro span member
      rcases List.mem_cons.1 member with rfl | later
      · exact ⟨rises, rest.le⟩
      · have := ih span later
        omega

theorem Takes.fresh (takes : Takes mark spans mark') : Fresh mark spans mark' := by
  refine ⟨takes.le, ?_, takes.between⟩
  induction takes with
  | nil => exact .nil
  | cons _ rest ih =>
      refine .cons (fun other member => ?_) ih
      have behind := (rest.between other member).1
      rw [Finset.disjoint_left]
      intro slot one two
      have := (Finset.mem_Ico.1 one).2
      have := (Finset.mem_Ico.1 two).1
      dsimp only at *
      omega

theorem Takes.nodup (takes : Takes mark spans mark') (positive : ∀ span ∈ spans, 0 < span.width) :
    (spans.map Span.first).Nodup := by
  induction takes with
  | nil => exact .nil
  | @cons _ _ first width spans _ rest ih =>
      rw [List.map_cons, List.nodup_cons]
      refine ⟨fun member => ?_, ih fun span later => positive span (List.mem_cons_of_mem _ later)⟩
      obtain ⟨span, later, same⟩ := List.mem_map.1 member
      have := (rest.between span later).1
      have := positive _ List.mem_cons_self
      dsimp only at *
      omega

end Takes

namespace Buffer

variable {buffer after : Buffer}

theorem maxLocals_addSlotted {opcode : Opcode} {slot : Nat}
    (added : buffer.addSlotted opcode slot = .ok after) : after.maxLocals = buffer.maxLocals := by
  unfold addSlotted at added
  split at added
  · cases added
    rfl
  · split at added
    · cases added
      rfl
    · cases added

theorem maxLocals_addAccess {opcode short : Opcode} {kind : Descriptor.ValueKind} {slot : Nat}
    (added : buffer.addAccess opcode short kind slot = .ok after) :
    after.maxLocals = max buffer.maxLocals (slot + kind.slots) := by
  simp only [addAccess] at added
  split at added
  · cases added
    rfl
  · obtain ⟨middle, slotted, added⟩ := bind_eq_ok.1 added
    cases pure_eq_ok.1 added
    rw [← maxLocals_addSlotted slotted]
    rfl

theorem maxLocals_addRet {slot : Nat} (added : buffer.addRet slot = .ok after) :
    after.maxLocals = max buffer.maxLocals (slot + 1) := by
  unfold addRet at added
  obtain ⟨middle, slotted, added⟩ := bind_eq_ok.1 added
  cases pure_eq_ok.1 added
  rw [← maxLocals_addSlotted slotted]
  rfl

end Buffer
end Code

namespace Assembler

open Code (Buffer Consecutive Span Takes)
open Descriptor (FieldType MethodType ValueKind)

def Variable.span (var : Variable) : Span :=
  ⟨var.slot, var.type.width⟩

theorem Variable.width_span_pos (var : Variable) : 0 < var.span.width := by
  show 0 < var.type.kind.slots
  cases var.type.kind <;> decide

namespace Scope

theorem consecutive_bindFrom (scope : Scope) (index slot : Nat) (types : List FieldType) :
    ∃ bound : List (String × Variable), (scope.bindFrom index slot types).2 = bound.reverse ++ scope ∧
      bound.map (fun entry => entry.2.type) = types ∧
      Consecutive slot (bound.map fun entry => entry.2.span) (scope.bindFrom index slot types).1 := by
  induction types generalizing scope index slot with
  | nil => exact ⟨[], rfl, rfl, .nil slot⟩
  | cons type types ih =>
      obtain ⟨bound, same, each, consecutive⟩ :=
        ih (scope.bind s!"${index}" ⟨slot, type⟩) (index + 1) (slot + type.width)
      refine ⟨(s!"${index}", ⟨slot, type⟩) :: bound, ?_, ?_, .cons consecutive⟩
      · rw [bindFrom, same, bind, List.reverse_cons, List.append_assoc]
        rfl
      · rw [List.map_cons, each]

theorem fst_bindFrom (scope : Scope) (index slot : Nat) (types : List FieldType) :
    (scope.bindFrom index slot types).1 = types.foldl (fun slots type => slots + type.width) slot := by
  induction types generalizing scope index slot with
  | nil => rfl
  | cons type types ih => exact ih _ _ _

theorem fst_bindParameters (scope : Scope) (buffer : Buffer) (owner : String) (type : MethodType)
    (isStatic : Bool) :
    (scope.bindParameters buffer owner type.parameters isStatic).1 =
      type.parameterSlots (!isStatic) := by
  cases isStatic <;> exact fst_bindFrom _ _ _ _

theorem consecutive_bindParameters {scope scope' : Scope} {buffer buffer' : Buffer} {owner : String}
    {types : List FieldType} {isStatic : Bool} {slots : Nat}
    (bound : scope.bindParameters buffer owner types isStatic = (slots, scope', buffer')) :
    ∃ parameters : List (String × Variable), scope' = parameters.reverse ++ scope ∧
      parameters.map (fun entry => entry.2.type) =
        (if isStatic then [] else [.object owner]) ++ types ∧
      Consecutive 0 (parameters.map fun entry => entry.2.span) slots ∧
      buffer' = buffer.reserveLocals slots := by
  unfold bindParameters at bound
  cases isStatic with
  | true =>
      obtain ⟨parameters, same, each, consecutive⟩ := consecutive_bindFrom scope 1 0 types
      cases bound
      exact ⟨parameters, same, each, consecutive, rfl⟩
  | false =>
      obtain ⟨parameters, same, each, consecutive⟩ :=
        consecutive_bindFrom (scope.bind "$0" ⟨0, .object owner⟩) 1 1 types
      cases bound
      refine ⟨("$0", ⟨0, .object owner⟩) :: parameters, ?_, ?_, .cons consecutive, rfl⟩
      · rw [List.reverse_cons, List.append_assoc]
        exact same
      · rw [List.map_cons, each]
        rfl

end Scope

/-- What is done with a scope and a buffer, as far as it concerns local variable slots. -/
inductive SlotStep where
  | bindReturn (returns : Option FieldType)
  | declare (name : String) (type : FieldType)
  | allocate (width : Nat)
  | load (slot : Nat) (kind : ValueKind)
  | store (slot : Nat) (kind : ValueKind)
  | ret (slot : Nat)
  | reserve (slots : Nat)

namespace SlotStep

def attempt (change : Buffer → Except Error Buffer) (buffer : Buffer) : Buffer :=
  match change buffer with
  | .ok after => after
  | .error _ => buffer

def run (scope : Scope) (buffer : Buffer) :
    SlotStep → Except Error (List Span × Scope × Buffer)
  | bindReturn returns => do
    let (slot, scope, buffer) ← scope.bindReturn buffer returns
    return ([⟨slot, (returns.getD Scope.noReturn).width⟩], scope, buffer)
  | declare name type => do
    let (slot, scope, buffer) ← scope.declare buffer name type
    return ([⟨slot, type.width⟩], scope, buffer)
  | allocate width => do
    let (slot, buffer) ← buffer.allocateLocal width
    return ([⟨slot, width⟩], scope, buffer)
  | load slot kind => .ok ([], scope, attempt (·.addLoad slot kind) buffer)
  | store slot kind => .ok ([], scope, attempt (·.addStore slot kind) buffer)
  | ret slot => .ok ([], scope, attempt (·.addRet slot) buffer)
  | reserve slots => .ok ([], scope, buffer.reserveLocals slots)

/-- Steps one after another. The program stops where the number of slots overflows. -/
def runAll (scope : Scope) (buffer : Buffer) :
    List SlotStep → Except Error (List Span × Scope × Buffer)
  | [] => .ok ([], scope, buffer)
  | step :: steps => do
    let (handed, scope, buffer) ← step.run scope buffer
    let (more, scope, buffer) ← runAll scope buffer steps
    return (handed ++ more, scope, buffer)

theorem le_maxLocals_attempt {change : Buffer → Except Error Buffer} {buffer : Buffer}
    (raises : ∀ {after}, change buffer = .ok after → buffer.maxLocals ≤ after.maxLocals) :
    buffer.maxLocals ≤ (attempt change buffer).maxLocals := by
  unfold attempt
  split
  · rename_i changed
    exact raises changed
  · exact Nat.le_refl _

section Runs

variable {scope scope' : Scope} {buffer buffer' : Buffer} {handed : List Span}

theorem takes_of_run {step : SlotStep} (ran : step.run scope buffer = .ok (handed, scope', buffer')) :
    Takes buffer.maxLocals handed buffer'.maxLocals := by
  cases step with
  | bindReturn | declare =>
      obtain ⟨⟨slot, _, _⟩, declared, ran⟩ := bind_eq_ok.1 ran
      obtain ⟨_, rfl, rfl, rfl⟩ := Scope.declare_eq_ok.1 declared
      cases pure_eq_ok.1 ran
      exact .cons (Nat.le_refl _) (.nil (Nat.le_refl _))
  | allocate width =>
      obtain ⟨⟨slot, _⟩, allocated, ran⟩ := bind_eq_ok.1 ran
      obtain ⟨_, rfl, rfl⟩ := Buffer.allocateLocal_eq_ok.1 allocated
      cases pure_eq_ok.1 ran
      exact .cons (Nat.le_refl _) (.nil (Nat.le_refl _))
  | load slot kind | store slot kind =>
      cases ran
      refine .nil (le_maxLocals_attempt fun added => ?_)
      rw [Buffer.maxLocals_addAccess added]
      exact Nat.le_max_left _ _
  | ret slot =>
      cases ran
      refine .nil (le_maxLocals_attempt fun added => ?_)
      rw [Buffer.maxLocals_addRet added]
      exact Nat.le_max_left _ _
  | reserve slots =>
      cases ran
      exact .nil (Nat.le_max_left _ _)

theorem takes_of_runAll {steps : List SlotStep}
    (ran : runAll scope buffer steps = .ok (handed, scope', buffer')) :
    Takes buffer.maxLocals handed buffer'.maxLocals := by
  induction steps generalizing scope buffer handed with
  | nil =>
      cases ran
      exact .nil (Nat.le_refl _)
  | cons step steps ih =>
      obtain ⟨⟨first, _, _⟩, one, ran⟩ := bind_eq_ok.1 ran
      obtain ⟨⟨more, _, _⟩, others, ran⟩ := bind_eq_ok.1 ran
      cases pure_eq_ok.1 ran
      exact (takes_of_run one).append (ih others)

theorem exists_of_runAll_append {front back : List SlotStep}
    (ran : runAll scope buffer (front ++ back) = .ok (handed, scope', buffer')) :
    ∃ first scope₁ buffer₁ more, runAll scope buffer front = .ok (first, scope₁, buffer₁) ∧
      runAll scope₁ buffer₁ back = .ok (more, scope', buffer') ∧ handed = first ++ more := by
  induction front generalizing scope buffer handed with
  | nil => exact ⟨[], scope, buffer, handed, rfl, ran, rfl⟩
  | cons step front ih =>
      obtain ⟨⟨first, _, _⟩, one, ran⟩ := bind_eq_ok.1 ran
      obtain ⟨⟨rest, _, _⟩, others, ran⟩ := bind_eq_ok.1 ran
      cases pure_eq_ok.1 ran
      obtain ⟨middle, scope₁, buffer₁, more, between, behind, rfl⟩ := ih others
      refine ⟨first ++ middle, scope₁, buffer₁, more, ?_, behind, (List.append_assoc _ _ _).symm⟩
      simp only [runAll, one, ok_bind, between]
      rfl

end Runs

end SlotStep
end Assembler
end ClassSplice
