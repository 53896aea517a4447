import ClassSplice.Code.Buffer
import ClassSplice.Descriptor.MethodType

namespace ClassSplice.Assembler

open Descriptor (FieldType)
open Code (Buffer)

structure Variable where
  slot : Nat
  type : FieldType
  deriving DecidableEq, Repr

abbrev Scope := List (String × Variable)

namespace Scope

def bind (scope : Scope) (name : String) (var : Variable) : Scope :=
  (name, var) :: scope

def find? (scope : Scope) (name : String) : Option Variable :=
  scope.lookup name

/-- Bind parameters to `$index` and the names after it, in slots from `slot` on, and return the
slot behind them. -/
def bindFrom (scope : Scope) (index slot : Nat) : List FieldType → Nat × Scope
  | [] => (slot, scope)
  | type :: types =>
    bindFrom (scope.bind s!"${index}" ⟨slot, type⟩) (index + 1) (slot + type.width) types

/-- Bind the receiver, if there is one, and the parameters, and return how many slots they take. -/
def bindParameters (scope : Scope) (buffer : Buffer) (owner : String) (types : List FieldType)
    (isStatic : Bool) : Nat × Scope × Buffer :=
  let (slots, scope) :=
    if isStatic then scope.bindFrom 1 0 types
    else (scope.bind "$0" ⟨0, .object owner⟩).bindFrom 1 1 types
  (slots, scope, buffer.reserveLocals slots)

def declare (scope : Scope) (buffer : Buffer) (name : String) (type : FieldType) :
    Except Error (Nat × Scope × Buffer) := do
  let (slot, buffer) ← buffer.allocateLocal type.width
  return (slot, scope.bind name ⟨slot, type⟩, buffer)

def noReturn : FieldType :=
  .object "java/lang/Object"

def bindReturn (scope : Scope) (buffer : Buffer) (returns : Option FieldType) :
    Except Error (Nat × Scope × Buffer) :=
  scope.declare buffer "$_" (returns.getD noReturn)

end Scope
end ClassSplice.Assembler
