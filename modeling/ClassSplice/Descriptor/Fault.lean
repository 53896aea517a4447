namespace ClassSplice.Descriptor

inductive Fault where
  | leftover (c : Char)
  | badBaseType (c : Char)
  | missingBaseType
  | badReferenceType (c : Char)
  | missingReferenceType
  | badFieldType (c : Char)
  | missingFieldType
  /-- The class name that starts with these characters is empty, goes on with a character that no
  class name holds, or has no end. -/
  | malformedClassName (start : String)
  | missingParameters
  | unclosedParameters
  | emptyTypeName
  | badTypeName (name : String)
  deriving DecidableEq, Repr

namespace Fault

def isEndOfText : Fault → Bool
  | missingBaseType | missingReferenceType | missingFieldType | unclosedParameters => true
  | _ => false

def message : Fault → String
  | leftover c => s!"Unexpected leftover input '{c}'"
  | badBaseType c => s!"Invalid base type character '{c}'"
  | missingBaseType => "Missing base type character"
  | badReferenceType c => s!"Invalid reference type character '{c}'"
  | missingReferenceType => "Missing reference type"
  | badFieldType c => s!"Invalid field type character '{c}'"
  | missingFieldType => "Missing field type"
  | malformedClassName start => s!"Malformed class name in 'L{start}'"
  | missingParameters => "Expected '(' for method"
  | unclosedParameters => "Missing ')' for method"
  | emptyTypeName => "Empty type name"
  | badTypeName name => s!"Invalid class name '{name}'"

end Fault
end ClassSplice.Descriptor
