import ClassSplice.Descriptor.FieldType
import ClassSplice.Text.Blank

/-!
Type names as people write them: primitive keywords, dotted or slashed class names, `[]` behind an
element type, or a descriptor that ends in `;` or starts with `[`. Blanks around a name do not
count.
-/

namespace ClassSplice.Descriptor

def BaseType.ofKeyword? : String → Option BaseType
  | "boolean" => some boolean
  | "byte" => some byte
  | "char" => some char
  | "short" => some short
  | "int" => some int
  | "long" => some long
  | "float" => some float
  | "double" => some double
  | _ => none

def internalName (name : List Char) : String :=
  String.ofList (name.map fun c => if c = '.' then '/' else c)

def dropBrackets? (name : List Char) : Option (List Char) :=
  match name.reverse with
  | ']' :: '[' :: element => some element.reverse
  | _ => none

theorem length_of_dropBrackets? {name element : List Char}
    (dropped : dropBrackets? name = some element) : element.length + 2 = name.length := by
  unfold dropBrackets? at dropped
  split at dropped
  · rename_i reversed
    have := congrArg List.length reversed
    simp_all
  · simp at dropped

theorem length_trim (text : List Char) : (Text.trim text).length ≤ text.length := by
  have front := (List.dropWhile_sublist Text.isBlank (l := text)).length_le
  have back :=
    (List.dropWhile_sublist Text.isBlank (l := (text.dropWhile Text.isBlank).reverse)).length_le
  simp only [Text.trim, List.length_reverse] at *
  omega

/-- The type that a name without blanks around it denotes when it is no array name. -/
def FieldType.ofSimpleName (name : List Char) : Except Fault FieldType :=
  match BaseType.ofKeyword? (String.ofList name) with
  | some type => .ok (base type)
  | none =>
    if name.isEmpty then .error .emptyTypeName
    else if name.any fun c => c == ';' || c == '[' || Text.isBlank c then
      .error (.badTypeName (String.ofList name))
    else .ok (object (internalName name))

def isDescriptor (name : List Char) : Bool :=
  name.head? == some '[' || (name.head? == some 'L' && name.getLast? == some ';')

def FieldType.ofNameChars (name : List Char) : Except Fault FieldType :=
  if isDescriptor (Text.trim name) then parse (String.ofList (Text.trim name))
  else
    match brackets : dropBrackets? (Text.trim name) with
    | none => ofSimpleName (Text.trim name)
    | some element =>
      have _shorter := length_of_dropBrackets? brackets
      have _trimmed := length_trim name
      (ofNameChars element).map array
termination_by name.length

def FieldType.ofName (name : String) : Except Fault FieldType :=
  ofNameChars name.toList

end ClassSplice.Descriptor
