import ClassSplice.FloatingPoint.Shortest
import ClassSplice.OffsetTable
import ClassSplice.Text.Quoted

namespace ClassSplice.Pool

abbrev Index := UInt16

inductive Constant where
  | text (value : String)
  | integer (value : Int32)
  | float (bits : UInt32)
  | long (value : Int64)
  | double (bits : UInt64)
  | classRef (name : Index)
  | string (text : Index)
  | fieldRef (owner nameAndType : Index)
  | methodRef (owner nameAndType : Index) (isInterface : Bool)
  | nameAndType (name descriptor : Index)
  | methodHandle (kind : UInt8) (reference : Index)
  | methodType (descriptor : Index)
  | dynamic (bootstrap : UInt16) (nameAndType : Index)
  | invokeDynamic (bootstrap : UInt16) (nameAndType : Index)
  | moduleName (name : Index)
  | packageName (name : Index)
  deriving DecidableEq, Hashable, Repr

namespace Constant

/-- Indices that an entry takes: two for the 64-bit numbers, the second of which denotes nothing. -/
def width : Constant → Nat
  | long _ | double _ => 2
  | _ => 1

instance : Width Constant :=
  ⟨width⟩

theorem width_pos (constant : Constant) : 0 < constant.width := by
  cases constant <;> simp [width]

def floatLayout : FloatingPoint.Layout :=
  ⟨-4, 16⟩

def describeIndex (kind : String) (index : Index) : String :=
  s!"{kind}ConstantIndex(ConstantIndex({index}))"

def describeText : Index → String :=
  describeIndex "Utf8"

def describeClass : Index → String :=
  describeIndex "Class"

def describeMember : Index → String :=
  describeIndex "NameAndType"

def describeFields (name fields : String) : String :=
  s!"{name} \x7b {fields} \x7d"

def describe : Constant → String
  | text value => s!"Utf8({Text.Quoted.encode value})"
  | integer value => s!"Integer({value})"
  | float bits => s!"Float({FloatingPoint.Format.single.render floatLayout bits.toNat})"
  | long value => s!"Long({value})"
  | double bits => s!"Double({FloatingPoint.Format.double.render floatLayout bits.toNat})"
  | classRef name => s!"Class({describeText name})"
  | string content => s!"String({describeText content})"
  | fieldRef owner member => s!"FieldRef({describeClass owner}, {describeMember member})"
  | methodRef owner member isInterface =>
    describeFields "MethodRef" <|
      s!"class: {describeClass owner}, name_and_type: {describeMember member}, " ++
      s!"is_interface: {isInterface}"
  | nameAndType name descriptor =>
    describeFields "NameAndType"
      s!"name: {describeText name}, descriptor: {describeText descriptor}"
  | methodHandle kind reference =>
    describeFields "MethodHandle"
      s!"reference_kind: {kind}, reference: ConstantIndex({reference})"
  | methodType descriptor =>
    describeFields "MethodType" s!"descriptor: {describeText descriptor}"
  | dynamic bootstrap member =>
    describeFields "Dynamic"
      s!"bootstrap_method: {bootstrap}, name_and_type: {describeMember member}"
  | invokeDynamic bootstrap member =>
    describeFields "InvokeDynamic"
      s!"bootstrap_method: {bootstrap}, name_and_type: {describeMember member}"
  | moduleName name => s!"Module({describeText name})"
  | packageName name => s!"Package({describeText name})"

end Constant
end ClassSplice.Pool
