import ClassSplice.Proofs.Assembler.Variables
import ClassSplice.Proofs.Edit.Guard
import ClassSplice.Proofs.Pool.Interning

namespace ClassSplice.Edit

open Assembler (Declares Scope SlotStep Variable)
open Code (Buffer Consecutive Cursor Fresh Opcode Span Takes)
open Descriptor (FieldType ValueKind)

section Steps

variable {buffer after : Buffer}

theorem addFinallyHandler_saves {returns : Option FieldType} (empty : buffer.bytes = #[])
    (added : addFinallyHandler buffer returns = .ok after) :
    storeBytes buffer.maxLocals <+: after.bytes.toList ∧
      Takes buffer.maxLocals [⟨buffer.maxLocals, 1⟩] after.maxLocals := by
  unfold addFinallyHandler at added
  obtain ⟨⟨slot, taken⟩, allocated, added⟩ := bind_eq_ok.1 added
  obtain ⟨_, rfl, rfl⟩ := Buffer.allocateLocal_eq_ok.1 allocated
  obtain ⟨stored, store, added⟩ := bind_eq_ok.1 added
  have bytes : stored.bytes.toList = storeBytes buffer.maxLocals := by
    rw [Buffer.toList_addAccess store, Buffer.bytes_setDepth]
    show buffer.bytes.toList ++ _ = _
    rw [empty]
    rfl
  have limit : buffer.maxLocals + 1 ≤ stored.maxLocals := by
    rw [Buffer.maxLocals_addAccess store]
    exact Nat.le_max_left _ _
  have rethrown {zeroed loaded : Buffer} (front : storeBytes buffer.maxLocals <+: zeroed.bytes.toList)
      (below : buffer.maxLocals + 1 ≤ zeroed.maxLocals)
      (load : (((zeroed.addOpcode Opcode.jsr).addU16 0).grow (-1)).addLoad buffer.maxLocals .reference =
        .ok loaded) (distance : List UInt8) :
      storeBytes buffer.maxLocals <+:
          ((loaded.addOpcode Opcode.athrow).overwrite (zeroed.pc + 1) distance).bytes.toList ∧
        Takes buffer.maxLocals [⟨buffer.maxLocals, 1⟩]
          ((loaded.addOpcode Opcode.athrow).overwrite (zeroed.pc + 1) distance).maxLocals := by
    constructor
    · refine Buffer.prefix_overwrite distance ?_ ?_
      · rw [Buffer.toList_addOpcode, Buffer.toList_addAccess load]
        rw [Buffer.bytes_grow, Buffer.toList_addU16, Buffer.toList_addOpcode]
        simp only [List.append_assoc]
        exact front.trans (List.prefix_append _ _)
      · have := front.length_le
        rw [Array.length_toList] at this
        exact Nat.le_succ_of_le this
    · rw [Assembler.rest_overwrite]
      refine .cons (Nat.le_refl _) (.nil ?_)
      show _ ≤ loaded.maxLocals
      rw [Buffer.maxLocals_addAccess load]
      exact le_max_of_le_left below
  cases returns with
  | none =>
      obtain ⟨loaded, load, added⟩ := bind_eq_ok.1 added
      cases pure_eq_ok.1 added
      exact rethrown (bytes ▸ List.prefix_rfl) limit load _
  | some type =>
      obtain ⟨loaded, load, added⟩ := bind_eq_ok.1 added
      cases pure_eq_ok.1 added
      refine @rethrown (stored.addZero type.kind) loaded ?_ limit load _
      rw [Buffer.addZero, Buffer.toList_addOpcode, bytes]
      exact List.prefix_append _ _

end Steps

/-- Assembled behind the code of a buffer, a snippet leaves another, and adds to the scope the variables
that it declares. -/
structure Compiles (source : String) (scope : Scope) (entered left : Buffer) (pool pool' : Pool)
    (declared : List (String × Variable)) : Prop where
  names : ∃ sources, Assembler.statements source = .ok sources ∧
    declared.map Prod.fst = sources.filterMap Assembler.Statement.variable?
  assembled : outcome (assemble source scope entered) pool = (.ok (declared.reverse ++ scope, left), pool')

theorem outcome_compileWith_declares {source : String} {scope : Scope} {entered left : Buffer}
    {pool pool' : Pool}
    (done : outcome (compileWith assemble source scope entered) pool = (.ok left, pool')) :
    ∃ declared, Compiles source scope entered left pool pool' declared ∧
      Takes entered.maxLocals (declared.map fun entry => entry.2.span) left.maxLocals := by
  obtain ⟨scope', assembled⟩ := outcome_compileWith_eq_ok.1 done
  obtain ⟨sources, declared, split, declares⟩ := Assembler.assemble_declares assembled
  obtain ⟨names, rfl, takes⟩ := declares
  exact ⟨declared, ⟨⟨sources, split, names⟩, assembled⟩, takes⟩

/-- What stands in front of the snippet of a subroutine: the return address is kept, and then the
result, or null where there is none. -/
def enterSubroutine (returns : Option FieldType) (returnAddress result : Nat) (buffer : Buffer) :
    Except Error Buffer := do
  let buffer ← buffer.addStore returnAddress .reference
  match returns with
  | none => (buffer.addOpcode Opcode.aconstNull).addStore result .reference
  | some type => buffer.addStore result type.kind

def leaveSubroutine (returns : Option FieldType) (returnAddress result : Nat) (buffer : Buffer) :
    Except Error Buffer := do
  let buffer ← match returns with
    | none => pure buffer
    | some type => buffer.addLoad result type.kind
  buffer.addRet returnAddress

def enterBytes (returnAddress result : Nat) (returns : Option FieldType) : List UInt8 :=
  storeBytes returnAddress ++ match returns with
    | none => Opcode.aconstNull :: storeBytes result
    | some type => Buffer.accessBytes type.kind.storeOpcode Opcode.istore0 type.kind result

section Compile

variable {source : String} {pool pool' : Pool} {buffer entered left after : Buffer}
  {returns : Option FieldType} {returnAddress result : Nat}

theorem toList_enterSubroutine (enter : enterSubroutine returns returnAddress result buffer = .ok entered) :
    entered.bytes.toList = buffer.bytes.toList ++ enterBytes returnAddress result returns ∧
      buffer.maxLocals ≤ entered.maxLocals := by
  obtain ⟨stored, store, enter⟩ := bind_eq_ok.1 enter
  have kept : buffer.maxLocals ≤ stored.maxLocals := by
    rw [Buffer.maxLocals_addAccess store]
    exact Nat.le_max_left _ _
  cases returns with
  | none =>
      rw [Buffer.toList_addAccess enter, Buffer.toList_addOpcode, Buffer.toList_addAccess store,
        Buffer.maxLocals_addAccess enter]
      exact ⟨by simp [enterBytes, storeBytes], le_max_of_le_left kept⟩
  | some type =>
      rw [Buffer.toList_addAccess enter, Buffer.toList_addAccess store, Buffer.maxLocals_addAccess enter]
      exact ⟨by simp [enterBytes, storeBytes], le_max_of_le_left kept⟩

theorem extends_leaveSubroutine (leave : leaveSubroutine returns returnAddress result left = .ok after) :
    left.Extends after ∧ left.maxLocals ≤ after.maxLocals := by
  unfold leaveSubroutine at leave
  cases returns with
  | none =>
      rw [Buffer.maxLocals_addRet leave]
      exact ⟨Buffer.extends_addRet leave, Nat.le_max_left _ _⟩
  | some type =>
      obtain ⟨loaded, load, ret⟩ := bind_eq_ok.1 leave
      rw [Buffer.maxLocals_addRet ret, Buffer.maxLocals_addAccess load]
      exact ⟨(Buffer.extends_addLoad load).trans (Buffer.extends_addRet ret),
        le_max_of_le_left (Nat.le_max_left _ _)⟩

theorem outcome_compileSubroutine {scope : Scope}
    (done : outcome (compileSubroutine assemble source returns returnAddress result scope buffer)
      pool = (.ok after, pool')) :
    ∃ entered left, enterSubroutine returns returnAddress result buffer = .ok entered ∧
      outcome (compileWith assemble source scope entered) pool = (.ok left, pool') ∧
      leaveSubroutine returns returnAddress result left = .ok after := by
  unfold compileSubroutine at done
  obtain ⟨stored, _, step, done⟩ := outcome_bind_eq_ok.1 done
  obtain ⟨store, rfl⟩ := outcome_demand_eq_ok.1 step
  cases returns with
  | none =>
      obtain ⟨entered, _, step, done⟩ := outcome_bind_eq_ok.1 done
      obtain ⟨keep, rfl⟩ := outcome_demand_eq_ok.1 step
      obtain ⟨left, _, ran, done⟩ := outcome_bind_eq_ok.1 done
      obtain ⟨ret, rfl⟩ := outcome_demand_eq_ok.1 done
      exact ⟨entered, left, bind_eq_ok.2 ⟨stored, store, keep⟩, ran, bind_eq_ok.2 ⟨left, rfl, ret⟩⟩
  | some type =>
      obtain ⟨entered, _, step, done⟩ := outcome_bind_eq_ok.1 done
      obtain ⟨keep, rfl⟩ := outcome_demand_eq_ok.1 step
      obtain ⟨left, _, ran, done⟩ := outcome_bind_eq_ok.1 done
      obtain ⟨loaded, _, last, done⟩ := outcome_bind_eq_ok.1 done
      obtain ⟨load, rfl⟩ := outcome_demand_eq_ok.1 last
      obtain ⟨ret, rfl⟩ := outcome_demand_eq_ok.1 done
      exact ⟨entered, left, bind_eq_ok.2 ⟨stored, store, keep⟩, ran, bind_eq_ok.2 ⟨loaded, load, ret⟩⟩

end Compile

/-- The receiver, if there is one, and the parameters, behind each other from the first slot on. -/
structure Context.Binds (context : Context) (parameters : List (String × Variable)) : Prop where
  types : parameters.map (fun entry => entry.2.type) =
    (if context.isStatic then [] else [.object context.owner]) ++ context.type.parameters
  consecutive : Consecutive 0 (parameters.map fun entry => entry.2.span)
    (context.type.parameterSlots (!context.isStatic))

theorem exists_binds (context : Context) (buffer : Buffer) :
    ∃ parameters, context.Binds parameters ∧ context.scope buffer =
      (parameters.reverse, buffer.reserveLocals (context.type.parameterSlots (!context.isStatic))) := by
  have count := Scope.fst_bindParameters [] buffer context.owner context.type context.isStatic
  rcases bound : Scope.bindParameters [] buffer context.owner context.type.parameters
    context.isStatic with ⟨slots, scope, buffer'⟩
  rw [bound] at count
  have count : slots = _ := count
  subst count
  obtain ⟨parameters, rfl, types, consecutive, rfl⟩ := Scope.consecutive_bindParameters bound
  refine ⟨parameters, ⟨types, consecutive⟩, ?_⟩
  rw [Context.scope, bound, List.append_nil]

/-- Where a subroutine keeps its return address and the result, which the snippet knows as `$_`, where
the handler in front of it keeps an exception, if there is one, and the variables of the snippet. The
snippet is assembled behind the code of `entered`, and leaves `left`. -/
structure SubroutineLocals (source : String) (context : Context) (code : Code) (asFinally : Bool)
    (parameters : List (String × Variable)) (result : Variable) (saved : List Span)
    (declared : List (String × Variable)) (handlerLength : Nat) (entered left buffer : Buffer)
    (pool pool' : Pool) : Prop where
  typed : result.type = context.type.returns.getD Scope.noReturn
  enters : ∃ bound front,
    Scope.bindReturn parameters.reverse (context.scope ((Buffer.empty 0 code.maxLocals.toNat).reserveLocals
        (code.maxLocals.toNat + 1))).2 context.type.returns =
      .ok (result.slot, ("$_", result) :: parameters.reverse, bound) ∧
    (if asFinally then addFinallyHandler bound context.type.returns = .ok front else front = bound) ∧
    front.pc = handlerLength ∧
    enterSubroutine context.type.returns code.maxLocals.toNat result.slot
      (front.setDepth (code.maxStack.toNat + 1)) = .ok entered
  compiles : Compiles source (("$_", result) :: parameters.reverse) entered left pool pool' declared
  leaves : leaveSubroutine context.type.returns code.maxLocals.toNat result.slot left = .ok buffer
  begins : ∃ handler, handler.length = handlerLength ∧
    handler ++ enterBytes code.maxLocals.toNat result.slot context.type.returns <+: buffer.bytes.toList
  saves : if asFinally then ∃ slot, saved = [⟨slot, 1⟩] ∧ storeBytes slot <+: buffer.bytes.toList
    else saved = []

/-- Where a handler keeps the exception, which the snippet knows by a name, and the variables of the
snippet. The snippet is assembled behind the code of `entered`, and leaves `buffer`. -/
structure HandlerLocals (source : String) (context : Context) (code : Code) (caught name : String)
    (parameters : List (String × Variable)) (exception : Variable)
    (declared : List (String × Variable)) (entered buffer : Buffer) (pool pool' : Pool) : Prop where
  typed : exception.type = .object caught
  enters : ∃ bound,
    Scope.declare parameters.reverse (context.scope ((Buffer.empty code.maxStack.toNat
        code.maxLocals.toNat).setDepth 1)).2 name (.object caught) =
      .ok (exception.slot, (name, exception) :: parameters.reverse, bound) ∧
    bound.addStore exception.slot .reference = .ok entered
  compiles : Compiles source ((name, exception) :: parameters.reverse) entered buffer pool pool' declared
  begins : storeBytes exception.slot <+: buffer.bytes.toList

section Locals

variable {source : String} {context : Context} {code : Code} {pool pool' : Pool} {after : Buffer}
  {parameters : List (String × Variable)}

theorem compileAfter_locals {asFinally : Bool} {handlerLength : Nat}
    (done : outcome (compileAfter assemble source context code asFinally) pool =
      (.ok (handlerLength, after), pool')) :
    ∃ parameters result saved declared entered left, context.Binds parameters ∧
      SubroutineLocals source context code asFinally parameters result saved declared handlerLength
        entered left after pool pool' ∧
      Takes code.maxLocals.toNat (⟨code.maxLocals.toNat, 1⟩ :: result.span ::
        (saved ++ declared.map fun entry => entry.2.span)) after.maxLocals := by
  obtain ⟨parameters, binds, bound_eq⟩ := exists_binds context
    ((Buffer.empty 0 code.maxLocals.toNat).reserveLocals (code.maxLocals.toNat + 1))
  have above : code.maxLocals.toNat + 1 ≤
      (((Buffer.empty 0 code.maxLocals.toNat).reserveLocals (code.maxLocals.toNat + 1)).reserveLocals
        (context.type.parameterSlots (!context.isStatic))).maxLocals :=
    le_max_of_le_left (Nat.le_max_right _ _)
  have empty : (((Buffer.empty 0 code.maxLocals.toNat).reserveLocals
      (code.maxLocals.toNat + 1)).reserveLocals
        (context.type.parameterSlots (!context.isStatic))).bytes = #[] := rfl
  simp only [compileAfter, bound_eq] at done
  generalize Buffer.reserveLocals _ (context.type.parameterSlots (!context.isStatic)) = parametered at *
  obtain ⟨⟨slot, scope, bound⟩, _, step, done⟩ := outcome_bind_eq_ok.1 done
  obtain ⟨binding, rfl⟩ := outcome_demand_eq_ok.1 step
  obtain ⟨_, rfl, rfl, taken⟩ := Scope.declare_eq_ok.1 binding
  let result : Variable := ⟨parametered.maxLocals, context.type.returns.getD Scope.noReturn⟩
  have finish {front : Buffer} {saved : List Span}
      (handler : if asFinally then addFinallyHandler bound context.type.returns = .ok front
        else front = bound)
      (saves : if asFinally then ∃ slot, saved = [⟨slot, 1⟩] ∧ storeBytes slot <+: front.bytes.toList
        else saved = [])
      (takes : Takes bound.maxLocals saved front.maxLocals)
      (ran : outcome (do
        let buffer ← compileSubroutine assemble source context.type.returns code.maxLocals.toNat
          result.slot (("$_", result) :: parameters.reverse) (front.setDepth (code.maxStack.toNat + 1))
        return (front.pc, buffer)) pool = (.ok (handlerLength, after), pool')) :
      ∃ parameters result saved declared entered left, context.Binds parameters ∧
        SubroutineLocals source context code asFinally parameters result saved declared handlerLength
          entered left after pool pool' ∧
        Takes code.maxLocals.toNat (⟨code.maxLocals.toNat, 1⟩ :: result.span ::
          (saved ++ declared.map fun entry => entry.2.span)) after.maxLocals := by
    obtain ⟨buffer, _, compiled, ran⟩ := outcome_bind_eq_ok.1 ran
    obtain ⟨same, rfl⟩ := outcome_pure_eq_ok.1 ran
    cases same
    obtain ⟨entered, left, enter, ran, leave⟩ := outcome_compileSubroutine compiled
    obtain ⟨declared, compiles, declares⟩ := outcome_compileWith_declares ran
    obtain ⟨bytes, low⟩ := toList_enterSubroutine enter
    obtain ⟨more, high⟩ := extends_leaveSubroutine leave
    have begins := (outcome_compileWith_grown ran).trans more.bytes
    rw [bytes, Buffer.bytes_setDepth] at begins
    have takes := takes.append ((declares.weaken low).rise high)
    rw [taken] at takes
    refine ⟨parameters, result, saved, declared, entered, left, binds,
      ⟨rfl, ⟨bound, front, bound_eq ▸ binding, handler, rfl, enter⟩, compiles, leave,
        ⟨front.bytes.toList, Array.length_toList, begins⟩, ?_⟩,
      .cons (Nat.le_refl _) (.cons above takes)⟩
    cases asFinally with
    | false => exact saves
    | true =>
        obtain ⟨slot, same, stored⟩ := saves
        exact ⟨slot, same, stored.trans ((List.prefix_append _ _).trans begins)⟩
  cases asFinally with
  | false =>
      obtain ⟨_, _, step, done⟩ := outcome_bind_eq_ok.1 done
      obtain ⟨rfl, rfl⟩ := outcome_pure_eq_ok.1 step
      exact finish rfl rfl (.nil (Nat.le_refl _)) done
  | true =>
      obtain ⟨front, _, step, done⟩ := outcome_bind_eq_ok.1 done
      obtain ⟨added, rfl⟩ := outcome_demand_eq_ok.1 step
      have kept : bound.bytes = #[] := by
        rw [taken]
        exact empty
      obtain ⟨stored, takes⟩ := addFinallyHandler_saves kept added
      exact finish added ⟨_, rfl, stored⟩ takes done

theorem compileCatch_locals {caught name : String}
    (done : outcome (compileCatch context code source caught name) pool = (.ok after, pool')) :
    ∃ parameters exception declared entered, context.Binds parameters ∧
      HandlerLocals source context code caught name parameters exception declared entered after
        pool pool' ∧
      Takes code.maxLocals.toNat (exception.span :: declared.map fun entry => entry.2.span)
        after.maxLocals := by
  obtain ⟨parameters, binds, bound_eq⟩ := exists_binds context
    ((Buffer.empty code.maxStack.toNat code.maxLocals.toNat).setDepth 1)
  have above : code.maxLocals.toNat ≤
      (((Buffer.empty code.maxStack.toNat code.maxLocals.toNat).setDepth 1).reserveLocals
        (context.type.parameterSlots (!context.isStatic))).maxLocals := Nat.le_max_left _ _
  have empty : (((Buffer.empty code.maxStack.toNat code.maxLocals.toNat).setDepth 1).reserveLocals
      (context.type.parameterSlots (!context.isStatic))).bytes = #[] := rfl
  simp only [compileCatch, bound_eq] at done
  generalize Buffer.reserveLocals _ (context.type.parameterSlots (!context.isStatic)) = parametered at *
  obtain ⟨⟨slot, scope, bound⟩, _, step, done⟩ := outcome_bind_eq_ok.1 done
  obtain ⟨binding, rfl⟩ := outcome_demand_eq_ok.1 step
  obtain ⟨_, rfl, rfl, taken⟩ := Scope.declare_eq_ok.1 binding
  obtain ⟨entered, _, step, ran⟩ := outcome_bind_eq_ok.1 done
  obtain ⟨store, rfl⟩ := outcome_demand_eq_ok.1 step
  obtain ⟨declared, compiles, takes⟩ := outcome_compileWith_declares ran
  refine ⟨parameters, ⟨parametered.maxLocals, .object caught⟩, declared, entered, binds,
    ⟨rfl, ⟨bound, bound_eq ▸ binding, store⟩, compiles, ?_⟩, .cons above (takes.weaken ?_)⟩
  · have bytes : entered.bytes.toList = storeBytes parametered.maxLocals := by
      rw [Buffer.toList_addAccess store, taken]
      show parametered.bytes.toList ++ _ = _
      rw [empty]
      rfl
    show storeBytes parametered.maxLocals <+: _
    rw [← bytes]
    exact outcome_compileWith_grown ran
  · rw [Buffer.maxLocals_addAccess store]
    exact Nat.le_max_right _ _

/-- Spans that lie apart from each other and above all slots of a body, and beside the parameters, if
these are slots of the body. -/
structure Separate (context : Context) (code : Code) (parameters : List (String × Variable))
    (spans : List Span) (mark : Nat) : Prop where
  fresh : Fresh code.maxLocals.toNat spans mark
  distinct : (spans.map Span.first).Nodup
  beside : context.type.parameterSlots (!context.isStatic) ≤ code.maxLocals.toNat →
    Fresh 0 (parameters.map (fun entry => entry.2.span) ++ spans) mark

theorem Context.Binds.separate (binds : context.Binds parameters) {spans : List Span} {mark : Nat}
    (takes : Takes code.maxLocals.toNat spans mark) (positive : ∀ span ∈ spans, 0 < span.width) :
    Separate context code parameters spans mark where
  fresh := takes.fresh
  distinct := takes.nodup positive
  beside covered := (binds.consecutive.takes.append (takes.weaken covered)).fresh

theorem width_pos_of_declared {declared : List (String × Variable)} :
    ∀ span ∈ declared.map fun entry => entry.2.span, 0 < span.width := by
  intro span member
  obtain ⟨entry, _, rfl⟩ := List.mem_map.1 member
  exact entry.2.width_span_pos

end Locals

/-- Slots that are handed out after the parameters were bound lie apart from each other, from the
parameters and from all slots in use before, and so do those of the code that is put behind a body. -/
theorem locals_fresh :
    (∀ {scope scope₁ scope₂ : Scope} {buffer buffer₁ buffer₂ : Buffer} {owner : String}
      {types : List FieldType} {isStatic : Bool} {slots : Nat} {steps : List SlotStep}
      {handed : List Span},
      scope.bindParameters buffer owner types isStatic = (slots, scope₁, buffer₁) →
      SlotStep.runAll scope₁ buffer₁ steps = .ok (handed, scope₂, buffer₂) →
      ∃ parameters : List (String × Variable), scope₁ = parameters.reverse ++ scope ∧
        parameters.map (fun entry => entry.2.type) =
          (if isStatic then [] else [.object owner]) ++ types ∧
        Consecutive 0 (parameters.map fun entry => entry.2.span) slots ∧
        Fresh 0 (parameters.map (fun entry => entry.2.span) ++ handed) buffer₂.maxLocals ∧
        Fresh buffer.maxLocals handed buffer₂.maxLocals ∧
        ∀ front back, steps = front ++ back → ∃ first scope buffer,
          SlotStep.runAll scope₁ buffer₁ front = .ok (first, scope, buffer) ∧
          buffer₁.maxLocals ≤ buffer.maxLocals ∧ buffer.maxLocals ≤ buffer₂.maxLocals) ∧
    (∀ {editor editor' : Editor} {index : Nat} {source : String} {asFinally : Bool},
      outcome (insertAfter assemble index source asFinally) editor = (.ok (), editor') →
      ∃ context code base code' pool start handlerLength length calls buffer parameters result saved
        declared entered left,
        outcome (contextAt index) editor = (.ok context, editor) ∧
        Replaced editor editor' index code code' pool ∧
        outcome (compileAfter assemble source context code asFinally) editor.file.pool =
          (.ok (handlerLength, buffer), pool) ∧
        appendAfter code start handlerLength buffer asFinally = .ok (length, base) ∧
        callBeforeReturns base length = .ok (calls, code') ∧
        context.Binds parameters ∧
        SubroutineLocals source context code asFinally parameters result saved declared handlerLength
          entered left buffer editor.file.pool pool ∧
        Separate context code parameters (⟨code.maxLocals.toNat, 1⟩ :: result.span ::
          (saved ++ declared.map fun entry => entry.2.span)) buffer.maxLocals) ∧
    ∀ {editor editor' : Editor} {index : Nat} {source exceptionType name : String},
      outcome (addCatch assemble index source exceptionType name) editor = (.ok (), editor') →
      ∃ context caught code code' pool middle start buffer catchType block own parameters exception
        declared entered,
        outcome (contextAt index) editor = (.ok context, editor) ∧
        classNameOf exceptionType = .ok caught ∧ Replaced editor editor' index code code' pool ∧
        outcome (compileCatch context code source caught name) editor.file.pool =
          (.ok buffer, middle) ∧
        Guarded code buffer start catchType block own code' ∧
        context.Binds parameters ∧
        HandlerLocals source context code caught name parameters exception declared entered buffer
          editor.file.pool middle ∧
        Separate context code parameters (exception.span :: declared.map fun entry => entry.2.span)
          buffer.maxLocals := by
  refine ⟨fun bound ran => ?_, fun done => ?_, fun done => ?_⟩
  · obtain ⟨parameters, rfl, types, consecutive, rfl⟩ := Scope.consecutive_bindParameters bound
    have takes := SlotStep.takes_of_runAll ran
    refine ⟨parameters, rfl, types, consecutive, ?_, ?_, ?_⟩
    · exact (consecutive.takes.append (takes.weaken (Nat.le_max_right _ _))).fresh
    · exact (takes.weaken (Nat.le_max_left _ _)).fresh
    · rintro front back rfl
      obtain ⟨first, scope, buffer, more, front, back, rfl⟩ := SlotStep.exists_of_runAll_append ran
      exact ⟨first, scope, buffer, front, (SlotStep.takes_of_runAll front).le,
        (SlotStep.takes_of_runAll back).le⟩
  · obtain ⟨context, isConstructor, code, code', pool, known, _, edited, replaced⟩ :=
      insertAfter_replaced done
    obtain ⟨start, handlerLength, buffer, length, base, calls, _, compiled, appended, called⟩ :=
      outcome_withEpilogue_eq_ok.1 edited
    obtain ⟨parameters, result, saved, declared, entered, left, binds, locals, takes⟩ :=
      compileAfter_locals compiled
    refine ⟨context, code, base, code', pool, start, handlerLength, length, calls, buffer, parameters, result,
      saved, declared, entered, left, known, replaced, compiled, appended, called, binds, locals,
      binds.separate takes fun span member => ?_⟩
    have saves := locals.saves
    simp only [List.mem_cons, List.mem_append] at member
    rcases member with rfl | rfl | kept | named
    · exact Nat.one_pos
    · exact result.width_span_pos
    · split at saves
      · obtain ⟨slot, rfl, _⟩ := saves
        cases List.mem_singleton.1 kept
        exact Nat.one_pos
      · rw [saves] at kept
        cases kept
    · exact width_pos_of_declared span named
  · obtain ⟨context, isConstructor, caught, code, code', pool, known, _, named, edited, replaced⟩ :=
      addCatch_replaced done
    obtain ⟨start, buffer, middle, catchType, block, own, _, compiled, _, guarded⟩ :=
      withCatch_guarded edited
    obtain ⟨parameters, exception, declared, entered, binds, locals, takes⟩ := compileCatch_locals compiled
    refine ⟨context, caught, code, code', pool, middle, start, buffer, catchType, block, own, parameters,
      exception, declared, entered, known, named, replaced, compiled, guarded, binds, locals,
      binds.separate takes fun span member => ?_⟩
    rcases List.mem_cons.1 member with rfl | named
    · exact exception.width_span_pos
    · exact width_pos_of_declared span named

theorem internClass_smallPool : outcome (Pool.internClass "C") smallPool = (.ok 2, smallPool) := by
  have absent : Pool.empty.Unknown (.text "C") := Std.HashMap.getElem?_empty
  have text : (Pool.empty.push (.text "C")).Known 1 (.text "C") := Pool.known_push_of_unknown absent
  have missing : (Pool.empty.push (.text "C")).Unknown (.classRef 1) := by
    rw [Pool.Unknown, Pool.indices_push, Std.HashMap.getElem?_insertIfNew, if_neg (by simp)]
    exact Std.HashMap.getElem?_empty
  have ref : ((Pool.empty.push (.text "C")).push (.classRef 1)).Known 2 (.classRef 1) :=
    Pool.known_push_of_unknown missing
  refine outcome_bind_eq_ok.2 ⟨1, _, Pool.intern_of_known ?_, Pool.intern_of_known ?_⟩
  · exact (((text.push _).push _).push _).push _
  · exact ((ref.push _).push _).push _

def caughtLoop : Code :=
  ⟨1, 2, #[0x1a, 0x99, 0xff, 0xff, 0xb1, 0x4c, 0x00], [⟨0, 1, 4, 0⟩, ⟨0, 5, 5, 2⟩], []⟩

set_option maxRecDepth 4000 in
theorem exists_addCatch_handledLoop : ∃ editor',
    outcome (addCatch assemble 0 "nop" "C" "e") (smallClass handledLoop) = (.ok (), editor') := by
  have named : classNameOf "C" = .ok "C" := by cbv
  have stored : (⟨#[], 1, 1, 2, []⟩ : Buffer).addStore 1 .reference =
      .ok ⟨#[0x4c], 0, 1, 2, []⟩ := by
    rfl
  have raised : raiseLimits handledLoop ⟨#[0x4c, 0x00], 0, 1, 2, []⟩ =
      .ok { handledLoop with maxLocals := 2 } := by
    rfl
  have appended : (Cursor.start { handledLoop with maxLocals := 2 }).append #[0x4c, 0x00] =
      .ok (5, ⟨{ caughtLoop with handlers := handledLoop.handlers }, 0⟩) := by
    cbv
  have guarded : ({ handledLoop with maxLocals := 2 } : Code).handlers.add 0 5 5 2 =
      .ok caughtLoop.handlers := by
    cbv
  have own : caughtLoop.handlers.append [] 5 = .ok caughtLoop.handlers := by cbv
  have declared : Scope.declare [] ⟨#[], 1, 1, 1, []⟩ "e" (.object "C") =
      .ok (1, [("e", ⟨1, .object "C"⟩)], ⟨#[], 1, 1, 2, []⟩) := by
    rfl
  have compiled : outcome (withCatch ⟨"C", ⟨[], none⟩, true⟩ false "nop" "C" "e" handledLoop) smallPool =
      (.ok caughtLoop, smallPool) := by
    have block : outcome (compileCatch ⟨"C", ⟨[], none⟩, true⟩ handledLoop "nop" "C" "e") smallPool =
        (.ok ⟨#[0x4c, 0x00], 0, 1, 2, []⟩, smallPool) := by
      refine outcome_bind_eq_ok.2 ⟨_, _, outcome_demand_eq_ok.2 ⟨declared, rfl⟩, ?_⟩
      refine outcome_bind_eq_ok.2 ⟨_, _, outcome_demand_eq_ok.2 ⟨stored, rfl⟩, ?_⟩
      exact compileWith_nop (Int.le_refl 0)
    exact outcome_withCatch_eq_ok.2 ⟨0, _, smallPool, _, 2, 5, _, _, _, rfl, block, raised,
      internClass_smallPool, appended, guarded, own, rfl⟩
  have sound : checkBody caughtLoop ⟨50, 0⟩ = .ok () := by cbv
  obtain ⟨editor', done⟩ := exists_patched rfl compiled sound
  refine ⟨editor', outcome_bind_eq_ok.2 ⟨_, _, contextAt_smallClass _,
    outcome_bind_eq_ok.2 ⟨_, _, isConstructor_smallClass _, ?_⟩⟩⟩
  simp only [named]
  exact done

theorem locals_fresh_handledLoop :
    (∃ parameters : List (String × Variable),
      parameters.map (fun entry => entry.2.type) = [.base .long] ∧
      Fresh 0 (parameters.map (fun entry => entry.2.span) ++ [⟨2, 2⟩, ⟨4, 1⟩]) 5) ∧
    (∃ editor' buffer result saved declared entered left,
      outcome (insertAfter assemble 0 "nop" true) (smallClass handledLoop) = (.ok (), editor') ∧
      outcome (compileAfter assemble "nop" ⟨"C", ⟨[], none⟩, true⟩ handledLoop true) smallPool =
        (.ok (6, buffer), smallPool) ∧
      SubroutineLocals "nop" ⟨"C", ⟨[], none⟩, true⟩ handledLoop true [] result saved declared 6 entered
        left buffer smallPool smallPool ∧
      Fresh 1 (⟨1, 1⟩ :: result.span :: (saved ++ declared.map fun entry => entry.2.span))
        buffer.maxLocals) ∧
    ∃ editor' middle buffer exception declared entered,
      outcome (addCatch assemble 0 "nop" "C" "e") (smallClass handledLoop) = (.ok (), editor') ∧
      HandlerLocals "nop" ⟨"C", ⟨[], none⟩, true⟩ handledLoop "C" "e" [] exception declared entered buffer
        smallPool middle ∧
      Fresh 1 (exception.span :: declared.map fun entry => entry.2.span) buffer.maxLocals := by
  obtain ⟨steps, after, caught⟩ := locals_fresh
  have bound : Scope.bindParameters [] (.empty 0 0) "C" [.base .long] true =
      (2, [("$1", ⟨0, .base .long⟩)], ⟨#[], 0, 0, 2, []⟩) := by
    rfl
  have ran : SlotStep.runAll [("$1", ⟨0, .base .long⟩)] ⟨#[], 0, 0, 2, []⟩
      [.declare "d" (.base .double), .allocate 1] = .ok ([⟨2, 2⟩, ⟨4, 1⟩],
        [("d", ⟨2, .base .double⟩), ("$1", ⟨0, .base .long⟩)], ⟨#[], 0, 0, 5, []⟩) := by
    rfl
  have without {parameters : List (String × Variable)}
      (binds : Context.Binds ⟨"C", ⟨[], none⟩, true⟩ parameters) : parameters = [] :=
    List.map_eq_nil_iff.1 binds.types
  refine ⟨?_, ?_, ?_⟩
  · obtain ⟨parameters, _, types, _, fresh, _⟩ := steps bound ran
    exact ⟨parameters, types, fresh⟩
  · obtain ⟨editor', done⟩ := exists_insertAfter_handledLoop
    obtain ⟨context, code, base, code', pool, start, handlerLength, length, calls, buffer, parameters,
      result, saved, declared, entered, left, known, replaced, compiled, _, _, binds, locals,
      separate⟩ := after done
    cases known.symm.trans (contextAt_smallClass _)
    obtain rfl := replaced_smallClass rfl replaced
    obtain rfl := without binds
    cases compiled.symm.trans compileAfter_finally
    exact ⟨editor', _, result, saved, declared, entered, left, done, compiled, locals, separate.fresh⟩
  · obtain ⟨editor', done⟩ := exists_addCatch_handledLoop
    obtain ⟨context, name, code, code', pool, middle, start, buffer, catchType, block, own, parameters,
      exception, declared, entered, known, named, replaced, _, _, binds, locals, separate⟩ := caught done
    cases known.symm.trans (contextAt_smallClass _)
    cases named.symm.trans (show classNameOf "C" = .ok "C" by cbv)
    obtain rfl := replaced_smallClass rfl replaced
    obtain rfl := without binds
    exact ⟨editor', middle, buffer, exception, declared, entered, done, locals, separate.fresh⟩

end ClassSplice.Edit
