import ClassSplice.Edit.Snippet
import ClassSplice.Proofs.Assembler.Constants
import ClassSplice.Proofs.Edit.After

namespace ClassSplice.Edit

open Code (Buffer Cursor)
open Descriptor (FieldType)

inductive Change where
  | before (source : String)
  | after (source : String) (asFinally : Bool)
  | catching (source exceptionType name : String)
  | anew (source : String)

def Change.run : Change → Nat → EditM Unit
  | before source, index => insertBefore assemble index source
  | after source asFinally, index => insertAfter assemble index source asFinally
  | catching source exceptionType name, index => addCatch assemble index source exceptionType name
  | anew source, index => setBody assemble index source

def withCatch (context : Context) (isConstructor : Bool) (source caught name : String)
    (code : Code) : PoolEditM Code := do
  let start ← demandEdit (bodyStart code (← get) isConstructor)
  let buffer := (Buffer.empty code.maxStack.toNat code.maxLocals.toNat).setDepth 1
  let (scope, buffer) := context.scope buffer
  let (slot, scope, buffer) ← demand (scope.declare buffer name (.object caught))
  let buffer ← demand (buffer.addStore slot .reference)
  let buffer ← compileWith assemble source scope buffer
  let code ← demand (raiseLimits code buffer)
  let catchType ← interned (Pool.internClass caught)
  let (block, cursor) ← demand ((Cursor.start code).append buffer.bytes)
  let handlers ← demand (code.handlers.add start code.bytes.size block catchType)
  let handlers ← demand (handlers.append buffer.handlers block)
  return { cursor.code with handlers }

def compileCatch (context : Context) (code : Code) (source caught name : String) :
    PoolEditM Buffer := do
  let buffer := (Buffer.empty code.maxStack.toNat code.maxLocals.toNat).setDepth 1
  let (scope, buffer) := context.scope buffer
  let (slot, scope, buffer) ← demand (scope.declare buffer name (.object caught))
  let buffer ← demand (buffer.addStore slot .reference)
  compileWith assemble source scope buffer

def needsReturn (context : Context) (buffer : Buffer) : Except Error Bool :=
  if context.type.returns.isNone then fallsThrough buffer.bytes else pure false

def completed (buffer : Buffer) (needsReturn : Bool) : Except Error Code := do
  let buffer := if needsReturn then buffer.addOpcode Code.Opcode.vreturn else buffer
  let (maxStack, maxLocals) ← buffer.limits
  return ⟨maxStack, maxLocals, buffer.bytes, buffer.handlers, []⟩

def newBody (context : Context) (source : String) : PoolEditM Code := do
  let (scope, buffer) := context.scope (.empty 0 0)
  let buffer ← compileWith assemble source scope buffer
  let needsReturn ← demand (needsReturn context buffer)
  demand (completed buffer needsReturn)

def bodyAt (index : Nat) : EditM (Option Code) := do
  let method ← methodAt index
  require (method.code (← get).file.pool)

def Change.Builds (editor : Editor) (index : Nat) (context : Context) (isConstructor : Bool)
    (built : Code) (pool : Pool) : Change → Prop
  | before source => ∃ code, outcome (bodyAt index) editor = (.ok (some code), editor) ∧
      outcome (withPrologue context source code) editor.file.pool = (.ok built, pool)
  | after source asFinally => ∃ code, outcome (bodyAt index) editor = (.ok (some code), editor) ∧
      outcome (withEpilogue context isConstructor source asFinally code) editor.file.pool =
        (.ok built, pool)
  | catching source exceptionType name => ∃ code caught,
      outcome (bodyAt index) editor = (.ok (some code), editor) ∧
      classNameOf exceptionType = .ok caught ∧
      outcome (withCatch context isConstructor source caught name code) editor.file.pool =
        (.ok built, pool)
  | anew source => outcome (newBody context source) editor.file.pool = (.ok built, pool)

/-- A body was found sound and put in place of what the method had, without its frames. -/
structure Written (before after : Editor) (index : Nat) (code : Code) (pool : Pool) : Prop where
  sound : checkBody code before.file.version = .ok ()
  stored : ∃ method method' flags pool', before.file.methods[index]? = some method ∧
    outcome (method.setCode (code.withoutFrames pool)) pool = (.ok method', pool') ∧
    { before with file := { before.file with
      pool := pool'
      methods := before.file.methods.setIfInBounds index { method' with flags } } } = after

section Run

variable {editor editor' : Editor} {index : Nat} {code built : Code} {pool : Pool}

theorem outcome_bodyAt_eq_ok {body : Option Code} :
    outcome (bodyAt index) editor = (.ok body, editor') ↔
      ∃ method, editor.file.methods[index]? = some method ∧
        method.code editor.file.pool = .ok body ∧ editor = editor' := by
  simp only [bodyAt, outcome_bind_eq_ok, outcome_methodAt_eq_ok, outcome_get_eq_ok,
    outcome_require_eq_ok]
  constructor
  · rintro ⟨method, _, ⟨found, rfl⟩, _, _, ⟨rfl, rfl⟩, read, rfl⟩
    exact ⟨method, found, read, rfl⟩
  · rintro ⟨method, found, read, rfl⟩
    exact ⟨method, _, ⟨found, rfl⟩, _, _, ⟨rfl, rfl⟩, read, rfl⟩

theorem Replaced.bodyAt (replaced : Replaced editor editor' index code built pool) :
    outcome (bodyAt index) editor = (.ok (some code), editor) := by
  obtain ⟨method, _, _, _, found, _, read, _⟩ := replaced.stored
  exact outcome_bodyAt_eq_ok.2 ⟨method, found, read, rfl⟩

theorem Replaced.written (replaced : Replaced editor editor' index code built pool) :
    Written editor editor' index built pool := by
  obtain ⟨method, _, method', pool', found, _, _, stored, rfl⟩ := replaced.stored
  exact ⟨replaced.sound, method, method', method'.flags, pool', found, stored, rfl⟩

theorem setBody_built {compiler : Compiler} {source : String}
    (done : outcome (setBody compiler index source) editor = (.ok (), editor')) :
    ∃ context buffer answer built pool, outcome (contextAt index) editor = (.ok context, editor) ∧
      outcome (compileWith compiler source (context.scope (.empty 0 0)).1 (context.scope (.empty 0 0)).2)
        editor.file.pool = (.ok buffer, pool) ∧
      needsReturn context buffer = .ok answer ∧ completed buffer answer = .ok built ∧
      Written editor editor' index built pool := by
  unfold setBody at done
  obtain ⟨_, _, step, done⟩ := outcome_bind_eq_ok.1 done
  obtain ⟨_, rfl⟩ := outcome_requireThawed_eq_ok.1 step
  obtain ⟨context, _, known, done⟩ := outcome_bind_eq_ok.1 done
  obtain rfl := outcome_contextAt_same known
  obtain ⟨method, _, step, done⟩ := outcome_bind_eq_ok.1 done
  obtain ⟨found, rfl⟩ := outcome_methodAt_eq_ok.1 step
  obtain ⟨_, _, step, done⟩ := outcome_bind_eq_ok.1 done
  obtain ⟨rfl, rfl⟩ := outcome_get_eq_ok.1 step
  obtain ⟨method', _, step, done⟩ := outcome_bind_eq_ok.1 done
  obtain ⟨pool', ran, rfl⟩ := outcome_onPool_eq_ok.1 step
  have finished := outcome_setMethod_eq_ok.1 done
  obtain ⟨buffer, pool, compiled, ran⟩ := outcome_bind_eq_ok.1 ran
  have written {answer : Bool}
      (ran : outcome (do
        let buffer := if answer then buffer.addOpcode Code.Opcode.vreturn else buffer
        let (maxStack, maxLocals) ← demand buffer.limits
        let code : Code := ⟨maxStack, maxLocals, buffer.bytes, buffer.handlers, []⟩
        demandEdit (checkBody code editor.file.version)
        interned (method.setCode code)) pool = (.ok method', pool')) :
      ∃ built, completed buffer answer = .ok built ∧ Written editor editor' index built pool := by
    obtain ⟨⟨maxStack, maxLocals⟩, _, step, ran⟩ := outcome_bind_eq_ok.1 ran
    obtain ⟨limited, rfl⟩ := outcome_demand_eq_ok.1 step
    obtain ⟨_, _, step, ran⟩ := outcome_bind_eq_ok.1 ran
    obtain ⟨sound, rfl⟩ := outcome_demandEdit_eq_ok.1 step
    have stored := outcome_adapt_eq_ok.1 ran
    exact ⟨_, bind_eq_ok.2 ⟨_, limited, rfl⟩, sound, method, method', _, pool', found, stored, finished⟩
  suffices ∃ answer, needsReturn context buffer = .ok answer ∧
      ∃ built, completed buffer answer = .ok built ∧ Written editor editor' index built pool by
    obtain ⟨answer, tested, built, made, written⟩ := this
    exact ⟨context, buffer, answer, built, pool, known, compiled, tested, made, written⟩
  dsimp only at ran
  split at ran
  · rename_i noResult
    obtain ⟨answer, _, step, ran⟩ := outcome_bind_eq_ok.1 ran
    obtain ⟨tested, rfl⟩ := outcome_demand_eq_ok.1 step
    exact ⟨answer, (if_pos noResult).trans tested, written ran⟩
  · rename_i someResult
    obtain ⟨answer, _, step, ran⟩ := outcome_bind_eq_ok.1 ran
    obtain ⟨rfl, rfl⟩ := outcome_pure_eq_ok.1 step
    exact ⟨false, if_neg someResult, written ran⟩

theorem setBody_written {source : String}
    (done : outcome (setBody assemble index source) editor = (.ok (), editor')) :
    ∃ context built pool, outcome (contextAt index) editor = (.ok context, editor) ∧
      outcome (newBody context source) editor.file.pool = (.ok built, pool) ∧
      Written editor editor' index built pool := by
  obtain ⟨context, buffer, answer, built, pool, known, compiled, tested, made, written⟩ :=
    setBody_built done
  refine ⟨context, built, pool, known, ?_, written⟩
  refine outcome_bind_eq_ok.2 ⟨buffer, _, compiled, ?_⟩
  refine outcome_bind_eq_ok.2 ⟨answer, _, outcome_demand_eq_ok.2 ⟨tested, rfl⟩, ?_⟩
  exact outcome_demand_eq_ok.2 ⟨made, rfl⟩

theorem outcome_setBody {compiler : Compiler} {source : String} {context : Context} {buffer : Buffer}
    {answer : Bool} {method method' : Member} {pool' : Pool} (thawed : editor.frozen = false)
    (known : outcome (contextAt index) editor = (.ok context, editor))
    (found : editor.file.methods[index]? = some method)
    (compiled : outcome (compileWith compiler source (context.scope (.empty 0 0)).1
      (context.scope (.empty 0 0)).2) editor.file.pool = (.ok buffer, pool))
    (tested : needsReturn context buffer = .ok answer) (made : completed buffer answer = .ok built)
    (sound : checkBody built editor.file.version = .ok ())
    (stored : outcome (method.setCode built) pool = (.ok method', pool')) :
    outcome (setBody compiler index source) editor = (.ok (), { editor with file := { editor.file with
      pool := pool'
      methods := editor.file.methods.setIfInBounds index
        { method' with flags := Flags.clear method'.flags (Flags.abstract ||| Flags.native) } } }) := by
  obtain ⟨⟨maxStack, maxLocals⟩, limited, same⟩ := bind_eq_ok.1 made
  cases pure_eq_ok.1 same
  unfold setBody
  refine outcome_bind_eq_ok.2 ⟨(), _, outcome_requireThawed_eq_ok.2 ⟨thawed, rfl⟩, ?_⟩
  refine outcome_bind_eq_ok.2 ⟨_, _, known, ?_⟩
  refine outcome_bind_eq_ok.2 ⟨_, _, outcome_methodAt_eq_ok.2 ⟨found, rfl⟩, ?_⟩
  refine outcome_bind_eq_ok.2 ⟨_, _, outcome_get_eq_ok.2 ⟨rfl, rfl⟩, ?_⟩
  refine outcome_bind_eq_ok.2 ⟨method', _, outcome_onPool_eq_ok.2 ⟨pool', ?_, rfl⟩,
    outcome_setMethod_eq_ok.2 rfl⟩
  refine outcome_bind_eq_ok.2 ⟨buffer, pool, compiled, ?_⟩
  have finish : outcome (do
      let (maxStack, maxLocals) ← demand
        (if answer then buffer.addOpcode Code.Opcode.vreturn else buffer).limits
      let code : Code := ⟨maxStack, maxLocals,
        (if answer then buffer.addOpcode Code.Opcode.vreturn else buffer).bytes,
        (if answer then buffer.addOpcode Code.Opcode.vreturn else buffer).handlers, []⟩
      demandEdit (checkBody code editor.file.version)
      interned (method.setCode code)) pool = (.ok method', pool') := by
    refine outcome_bind_eq_ok.2 ⟨_, _, outcome_demand_eq_ok.2 ⟨limited, rfl⟩, ?_⟩
    refine outcome_bind_eq_ok.2 ⟨(), _, outcome_demandEdit_eq_ok.2 ⟨sound, rfl⟩, ?_⟩
    exact outcome_adapt_eq_ok.2 stored
  dsimp only
  split
  · rename_i noResult
    refine outcome_bind_eq_ok.2 ⟨answer, _, outcome_demand_eq_ok.2 ⟨?_, rfl⟩, finish⟩
    exact (if_pos noResult).symm.trans tested
  · rename_i someResult
    cases pure_eq_ok.1 ((if_neg someResult).symm.trans tested)
    exact outcome_bind_eq_ok.2 ⟨false, _, rfl, finish⟩

theorem outcome_withCatch_eq_ok {context : Context} {isConstructor : Bool} {source caught name : String}
    {code : Code} {pool pool' : Pool} :
    outcome (withCatch context isConstructor source caught name code) pool = (.ok built, pool') ↔
      ∃ start buffer middle raised catchType block cursor table handlers,
        bodyStart code pool isConstructor = .ok start ∧
        outcome (compileCatch context code source caught name) pool = (.ok buffer, middle) ∧
        raiseLimits code buffer = .ok raised ∧
        outcome (Pool.internClass caught) middle = (.ok catchType, pool') ∧
        (Cursor.start raised).append buffer.bytes = .ok (block, cursor) ∧
        raised.handlers.add start raised.bytes.size block catchType = .ok table ∧
        table.append buffer.handlers block = .ok handlers ∧ { cursor.code with handlers } = built := by
  constructor
  · intro made
    obtain ⟨_, _, step, made⟩ := outcome_bind_eq_ok.1 made
    obtain ⟨rfl, rfl⟩ := outcome_get_eq_ok.1 step
    obtain ⟨start, _, step, made⟩ := outcome_bind_eq_ok.1 made
    obtain ⟨started, rfl⟩ := outcome_demandEdit_eq_ok.1 step
    obtain ⟨declared, _, declare, made⟩ := outcome_bind_eq_ok.1 made
    obtain ⟨stored, _, store, made⟩ := outcome_bind_eq_ok.1 made
    obtain ⟨buffer, middle, compiled, made⟩ := outcome_bind_eq_ok.1 made
    obtain ⟨raised, _, step, made⟩ := outcome_bind_eq_ok.1 made
    obtain ⟨limited, rfl⟩ := outcome_demand_eq_ok.1 step
    obtain ⟨catchType, _, step, made⟩ := outcome_bind_eq_ok.1 made
    have interned := outcome_adapt_eq_ok.1 step
    obtain ⟨⟨block, cursor⟩, _, step, made⟩ := outcome_bind_eq_ok.1 made
    obtain ⟨appended, rfl⟩ := outcome_demand_eq_ok.1 step
    obtain ⟨table, _, step, made⟩ := outcome_bind_eq_ok.1 made
    obtain ⟨guarding, rfl⟩ := outcome_demand_eq_ok.1 step
    obtain ⟨handlers, _, step, made⟩ := outcome_bind_eq_ok.1 made
    obtain ⟨added, rfl⟩ := outcome_demand_eq_ok.1 step
    obtain ⟨same, rfl⟩ := outcome_pure_eq_ok.1 made
    exact ⟨start, buffer, middle, raised, catchType, block, cursor, table, handlers, started,
      outcome_bind_eq_ok.2 ⟨declared, _, declare, outcome_bind_eq_ok.2 ⟨stored, _, store, compiled⟩⟩,
      limited, interned, appended, guarding, added, same⟩
  · rintro ⟨start, buffer, middle, raised, catchType, block, cursor, table, handlers, started, compiled,
      limited, interned, appended, guarding, added, rfl⟩
    obtain ⟨declared, _, declare, compiled⟩ := outcome_bind_eq_ok.1 compiled
    obtain ⟨stored, _, store, compiled⟩ := outcome_bind_eq_ok.1 compiled
    refine outcome_bind_eq_ok.2 ⟨_, _, outcome_get_eq_ok.2 ⟨rfl, rfl⟩, ?_⟩
    refine outcome_bind_eq_ok.2 ⟨start, _, outcome_demandEdit_eq_ok.2 ⟨started, rfl⟩, ?_⟩
    refine outcome_bind_eq_ok.2 ⟨declared, _, declare, ?_⟩
    refine outcome_bind_eq_ok.2 ⟨stored, _, store, ?_⟩
    refine outcome_bind_eq_ok.2 ⟨buffer, _, compiled, ?_⟩
    refine outcome_bind_eq_ok.2 ⟨raised, _, outcome_demand_eq_ok.2 ⟨limited, rfl⟩, ?_⟩
    refine outcome_bind_eq_ok.2 ⟨catchType, _, outcome_adapt_eq_ok.2 interned, ?_⟩
    refine outcome_bind_eq_ok.2 ⟨(block, cursor), _, outcome_demand_eq_ok.2 ⟨appended, rfl⟩, ?_⟩
    refine outcome_bind_eq_ok.2 ⟨table, _, outcome_demand_eq_ok.2 ⟨guarding, rfl⟩, ?_⟩
    exact outcome_bind_eq_ok.2 ⟨handlers, _, outcome_demand_eq_ok.2 ⟨added, rfl⟩, rfl⟩

theorem addCatch_replaced {source exceptionType name : String}
    (done : outcome (addCatch assemble index source exceptionType name) editor = (.ok (), editor')) :
    ∃ context isConstructor caught code built pool,
      outcome (contextAt index) editor = (.ok context, editor) ∧
      outcome (Edit.isConstructor index) editor = (.ok isConstructor, editor) ∧
      classNameOf exceptionType = .ok caught ∧
      outcome (withCatch context isConstructor source caught name code) editor.file.pool =
        (.ok built, pool) ∧
      Replaced editor editor' index code built pool := by
  obtain ⟨context, _, known, done⟩ := outcome_bind_eq_ok.1 done
  obtain rfl := outcome_contextAt_same known
  obtain ⟨isConstructor, _, answered, done⟩ := outcome_bind_eq_ok.1 done
  obtain rfl := outcome_isConstructor_same answered
  split at done
  · exact absurd done outcome_throw_ne_ok
  · rename_i caught named
    obtain ⟨code, built, pool, edited, replaced⟩ := outcome_patchBody_eq_ok.1 done
    exact ⟨context, isConstructor, caught, code, built, pool, known, answered, named, edited,
      replaced⟩

theorem Change.written {change : Change}
    (done : outcome (change.run index) editor = (.ok (), editor')) :
    ∃ context isConstructor built pool, outcome (contextAt index) editor = (.ok context, editor) ∧
      change.Builds editor index context isConstructor built pool ∧
      Written editor editor' index built pool := by
  cases change with
  | before source =>
      obtain ⟨context, code, built, pool, known, edited, replaced⟩ := insertBefore_replaced done
      exact ⟨context, false, built, pool, known, ⟨code, replaced.bodyAt, edited⟩, replaced.written⟩
  | after source asFinally =>
      obtain ⟨context, isConstructor, code, built, pool, known, _, edited, replaced⟩ :=
        insertAfter_replaced done
      exact ⟨context, isConstructor, built, pool, known, ⟨code, replaced.bodyAt, edited⟩,
        replaced.written⟩
  | catching source exceptionType name =>
      obtain ⟨context, isConstructor, caught, code, built, pool, known, _, named, edited, replaced⟩ :=
        addCatch_replaced done
      exact ⟨context, isConstructor, built, pool, known, ⟨code, caught, replaced.bodyAt, named,
        edited⟩, replaced.written⟩
  | anew source =>
      obtain ⟨context, built, pool, known, made, written⟩ := setBody_written done
      exact ⟨context, false, built, pool, known, made, written⟩

end Run

set_option maxRecDepth 4000 in
theorem newBody_nop : outcome (newBody ⟨"C", ⟨[], none⟩, true⟩ "nop") smallPool =
    (.ok ⟨0, 0, #[0x00, 0xb1], [], []⟩, smallPool) := by
  have falls : fallsThrough #[0x00] = .ok true := by cbv
  refine outcome_bind_eq_ok.2 ⟨_, _, compileWith_nop (Int.le_refl 0), ?_⟩
  refine outcome_bind_eq_ok.2 ⟨true, _, outcome_demand_eq_ok.2 ⟨falls, rfl⟩, ?_⟩
  exact outcome_demand_eq_ok.2 ⟨rfl, rfl⟩

def spinSource : String :=
  "t: iconst_0\nifne t"

def spinStatements : List Assembler.Statement :=
  [⟨1, [.word "t:", .word "iconst_0"]⟩, ⟨2, [.word "ifne", .word "t"]⟩]

def spinBuffer : Buffer :=
  ⟨#[0x03, 0x9a, 0xff, 0xff], 0, 1, 0, []⟩

def spinCode : Code :=
  ⟨1, 0, #[0x03, 0x9a, 0xff, 0xff, 0xb1], [], []⟩

theorem compileWith_spin {pool : Pool} (made :
    Assembler.assembled? spinStatements [] (.empty 0 0) pool = some (spinBuffer, pool.constants)) :
    outcome (compileWith assemble spinSource [] (.empty 0 0)) pool = (.ok spinBuffer, pool) := by
  have split : Assembler.statements spinSource = .ok spinStatements := by cbv
  obtain ⟨scope', pool', assembled, same⟩ := Assembler.exists_assembled split made
  have extended := Assembler.appends_assemble spinSource [] (.empty 0 0) pool
  rw [assembled] at extended
  obtain rfl : pool' = pool := extended.eq_of_size (congrArg OffsetTable.size same)
  exact outcome_compileWith_eq_ok.2 ⟨scope', assembled⟩

section Spin

variable {editor : Editor} {pool pool' : Pool} {index : Nat} {method method' : Member}

set_option maxRecDepth 4000 in
theorem newBody_spin
    (compiled : outcome (compileWith assemble spinSource [] (.empty 0 0)) pool = (.ok spinBuffer, pool)) :
    outcome (newBody ⟨"C", ⟨[], none⟩, true⟩ spinSource) pool = (.ok spinCode, pool) := by
  have falls : fallsThrough spinBuffer.bytes = .ok true := by cbv
  refine outcome_bind_eq_ok.2 ⟨_, _, compiled, ?_⟩
  refine outcome_bind_eq_ok.2 ⟨true, _, outcome_demand_eq_ok.2 ⟨falls, rfl⟩, ?_⟩
  exact outcome_demand_eq_ok.2 ⟨rfl, rfl⟩

set_option maxRecDepth 4000 in
theorem outcome_setBody_spin (thawed : editor.frozen = false) (version : editor.file.version = ⟨50, 0⟩)
    (known : outcome (contextAt index) editor = (.ok ⟨"C", ⟨[], none⟩, true⟩, editor))
    (found : editor.file.methods[index]? = some method)
    (compiled : outcome (compileWith assemble spinSource [] (.empty 0 0)) editor.file.pool =
      (.ok spinBuffer, editor.file.pool))
    (stored : outcome (method.setCode spinCode) editor.file.pool = (.ok method', pool')) :
    outcome (setBody assemble index spinSource) editor = (.ok (), { editor with file :=
      { editor.file with
        pool := pool'
        methods := editor.file.methods.setIfInBounds index
          { method' with flags := Flags.clear method'.flags (Flags.abstract ||| Flags.native) } } }) := by
  have falls : fallsThrough spinBuffer.bytes = .ok true := by cbv
  have sound : checkBody spinCode ⟨50, 0⟩ = .ok () := by cbv
  exact outcome_setBody thawed known found compiled falls rfl (version ▸ sound) stored

end Spin

theorem compileWith_spin_smallPool :
    outcome (compileWith assemble spinSource [] (.empty 0 0)) smallPool = (.ok spinBuffer, smallPool) :=
  compileWith_spin (by decide +kernel)

theorem exists_setBody_spin (body : Code) :
    ∃ editor', outcome (setBody assemble 0 spinSource) (smallClass body) = (.ok (), editor') := by
  obtain ⟨method', pool', stored⟩ := exists_setCode ⟨0x9, 3, 4, [⟨5, body.write⟩]⟩ spinCode
    (show smallPool.hasRoomFor _ = true from rfl)
  exact ⟨_, outcome_setBody_spin rfl rfl (contextAt_smallClass body) rfl
    compileWith_spin_smallPool stored⟩

end ClassSplice.Edit
