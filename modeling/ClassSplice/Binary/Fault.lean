namespace ClassSplice.Binary

inductive FaultKind where
  | endOfInput
  | badData
  | badInput
  deriving DecidableEq, Repr

inductive Fault where
  | endOfInput
  | malformedText
  | unknownTag (tag : UInt8)
  | inConstant (index : UInt16) (cause : Fault)
  | poolOverflow
  /-- The last constant takes an index beyond the declared pool size. -/
  | straddlingConstant
  | trailingBytes
  /-- A text constant takes more bytes than its length field can hold. -/
  | textTooLong
  deriving DecidableEq, Repr

namespace Fault

def kind : Fault → FaultKind
  | endOfInput => .endOfInput
  | textTooLong => .badInput
  | inConstant _ cause => cause.kind
  | malformedText | unknownTag _ | poolOverflow | straddlingConstant | trailingBytes => .badData

def message : Fault → String
  | endOfInput => "failed to fill whole buffer"
  | malformedText => "malformed modified UTF-8"
  | unknownTag tag => s!"unknown constant tag {tag}"
  | inConstant index cause => s!"constant #{index}: " ++ cause.message
  | poolOverflow => "constant pool overflow"
  | straddlingConstant => "wide constant straddles the end of the constant pool"
  | trailingBytes => "trailing bytes after the class file"
  | textTooLong => "string constant longer than 65535 bytes"

end Fault
end ClassSplice.Binary
