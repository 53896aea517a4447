import ClassSplice.Assembler.Basic
import ClassSplice.Edit.Editor

namespace ClassSplice.Edit

open Code (Buffer Cursor)
open Descriptor (FieldType MethodType)

/-- Assembles a snippet with the variables of a scope, behind the code of a buffer. -/
abbrev Compiler := String → Assembler.Scope → Buffer →
  ExceptT Assembler.Fault (StateM Pool) (Assembler.Scope × Buffer)

structure Context where
  owner : String
  type : MethodType
  isStatic : Bool

def contextAt (index : Nat) : EditM Context := do
  let method ← methodAt index
  let editor ← get
  let type ← require (method.methodType editor.file.pool)
  let owner ← require editor.file.name
  return ⟨owner, type, method.isStatic⟩

def Context.scope (context : Context) (buffer : Buffer) : Assembler.Scope × Buffer :=
  (Assembler.Scope.bindParameters [] buffer context.owner context.type.parameters
    context.isStatic).2

def compileWith (compiler : Compiler) (source : String) (scope : Assembler.Scope)
    (buffer : Buffer) : PoolEditM Buffer := do
  let (_, buffer) ← ExceptT.adapt .assembly (compiler source scope buffer)
  return buffer

/-- Insert a snippet in front of the body, which jumps to the first instruction do not run. -/
def insertBefore (compiler : Compiler) (index : Nat) (source : String) : EditM Unit := do
  let context ← contextAt index
  patchBody index fun code => do
    let (scope, buffer) := context.scope (.empty 0 0)
    let buffer ← compileWith compiler source scope buffer
    let code ← demand (raiseLimits code buffer)
    let (start, cursor) ← demand ((Cursor.start code).insert 0 buffer.bytes.toList true)
    let cursor ← demand (cursor.prependHandlers buffer.handlers start)
    return cursor.code

/-- The subroutine that runs a snippet in front of a return. It is entered with the result and the
return address on the stack, and leaves the result. -/
def compileSubroutine (compiler : Compiler) (source : String) (returns : Option FieldType)
    (returnAddress result : Nat) (scope : Assembler.Scope) (buffer : Buffer) :
    PoolEditM Buffer := do
  let buffer ← demand (buffer.addStore returnAddress .reference)
  let buffer ← match returns with
    | none => do
      let buffer ← demand ((buffer.addOpcode Code.Opcode.aconstNull).addStore result .reference)
      compileWith compiler source scope buffer
    | some type => do
      let buffer ← demand (buffer.addStore result type.kind)
      let buffer ← compileWith compiler source scope buffer
      demand (buffer.addLoad result type.kind)
  demand (buffer.addRet returnAddress)

/-- What is put behind a body to run a snippet in front of its returns: a handler, where the snippet
is a finally clause, and the subroutine. Returns how long the handler is. -/
def compileAfter (compiler : Compiler) (source : String) (context : Context) (code : Code)
    (asFinally : Bool) : PoolEditM (Nat × Buffer) := do
  let returnAddress := code.maxLocals.toNat
  let buffer := (Buffer.empty 0 returnAddress).reserveLocals (returnAddress + 1)
  let (scope, buffer) := context.scope buffer
  let (result, scope, buffer) ← demand (scope.bindReturn buffer context.type.returns)
  let buffer ← if asFinally then demand (addFinallyHandler buffer context.type.returns)
    else pure buffer
  let handlerLength := buffer.pc
  let buffer := buffer.setDepth (code.maxStack.toNat + 1)
  let buffer ←
    compileSubroutine compiler source context.type.returns returnAddress result scope buffer
  return (handlerLength, buffer)

/-- The body with a handler and a subroutine behind it, and the length of the subroutine. A handler
protects the body from `start` on. -/
def appendAfter (code : Code) (start handlerLength : Nat) (buffer : Buffer) (asFinally : Bool) :
    Except Error (Nat × Code) := do
  let code ← raiseLimits code buffer
  let (block, cursor) ← (Cursor.start code).append buffer.bytes
  let cursor ← cursor.appendHandlers buffer.handlers block
  let code := cursor.code
  let handlers ← if asFinally then code.handlers.add start block block 0 else pure code.handlers
  return (code.bytes.size - block - handlerLength, { code with handlers })

/-- Run a snippet in front of every return, and, where it is a finally clause, also when the body
throws. The snippet becomes a subroutine behind the body. -/
def insertAfter (compiler : Compiler) (index : Nat) (source : String) (asFinally : Bool) :
    EditM Unit := do
  let context ← contextAt index
  let isConstructor ← isConstructor index
  let _ ← require ((← methodAt index).nameText (← get).file.pool)
  patchBody index fun code => do
    let start ← demandEdit (bodyStart code (← get) isConstructor)
    let (handlerLength, buffer) ← compileAfter compiler source context code asFinally
    let (length, code) ← demand (appendAfter code start handlerLength buffer asFinally)
    let (_, code) ← demand (callBeforeReturns code length)
    return code

/-- Catch exceptions that the body throws. The snippet finds the exception under a name, and has to
end by returning or throwing. -/
def addCatch (compiler : Compiler) (index : Nat) (source exceptionType name : String) :
    EditM Unit := do
  let context ← contextAt index
  let isConstructor ← isConstructor index
  match classNameOf exceptionType with
  | .error fault => throw fault
  | .ok caught =>
    patchBody index fun code => do
      let start ← demandEdit (bodyStart code (← get) isConstructor)
      let buffer := (Buffer.empty code.maxStack.toNat code.maxLocals.toNat).setDepth 1
      let (scope, buffer) := context.scope buffer
      let (slot, scope, buffer) ← demand (scope.declare buffer name (.object caught))
      let buffer ← demand (buffer.addStore slot .reference)
      let buffer ← compileWith compiler source scope buffer
      let code ← demand (raiseLimits code buffer)
      let catchType ← interned (Pool.internClass caught)
      let (block, cursor) ← demand ((Cursor.start code).append buffer.bytes)
      let handlers ← demand (code.handlers.add start code.bytes.size block catchType)
      let handlers ← demand (handlers.append buffer.handlers block)
      return { cursor.code with handlers }

/-- Replace the body. A body of a method without a result gets a return where it could run off its
end. An abstract or native method stops being so. -/
def setBody (compiler : Compiler) (index : Nat) (source : String) : EditM Unit := do
  requireThawed
  let context ← contextAt index
  let method ← methodAt index
  let version := (← get).file.version
  let method ← onPool do
    let (scope, buffer) := context.scope (.empty 0 0)
    let buffer ← compileWith compiler source scope buffer
    let needsReturn ← if context.type.returns.isNone then demand (fallsThrough buffer.bytes)
      else pure false
    let buffer := if needsReturn then buffer.addOpcode Code.Opcode.vreturn else buffer
    let (maxStack, maxLocals) ← demand buffer.limits
    let code : Code := ⟨maxStack, maxLocals, buffer.bytes, buffer.handlers, []⟩
    demandEdit (checkBody code version)
    interned (method.setCode code)
  setMethod index { method with flags := Flags.clear method.flags (Flags.abstract ||| Flags.native) }

end ClassSplice.Edit
