import ClassSplice.Binary.Fault
import ClassSplice.Code.Handler
import ClassSplice.Pool.Constant
import ClassSplice.Word

namespace ClassSplice

inductive Error where
  | format (fault : Binary.Fault)
  /-- The constant does not fit behind the entries of a pool that ends at `offset`. -/
  | poolFull (constant : Pool.Constant) (offset : Nat)
  | badMagic (bytes : List UInt8)
  | missingConstant (index : Pool.Index)
  | unexpectedConstant (index : Pool.Index) (expected : String)
  | badDescriptor (text : String)
  | malformedAttribute (name : String)
  | unknownOpcode (offset : Nat) (opcode : UInt8)
  | truncatedInstruction (offset : Nat)
  | malformedSwitch (offset : Nat)
  /-- An offset that has to be the start of an instruction, or the end of the code, is neither. -/
  | notABoundary (offset : Nat)
  | codeTooLong (length : Nat)
  | stackTooDeep (depth : Nat)
  | tooManyLocals (slots : Nat)
  | badHandlers (fault : Code.HandlerFault)
  /-- A sum of offsets, lengths or slots is no word. The program stops there. -/
  | overflow
  deriving DecidableEq, Repr

def checkedSum (left right : Nat) : Except Error Nat :=
  if left + right < wordLimit then .ok (left + right) else .error .overflow

def hexByte (byte : UInt8) : String :=
  let digit (n : Nat) : Char := Nat.digitChar n
  String.ofList [digit (byte.toNat / 16), digit (byte.toNat % 16)]

def hexList (bytes : List UInt8) : String :=
  "[" ++ String.intercalate ", " (bytes.map hexByte) ++ "]"

def Code.Handler.describe (handler : Handler) : String :=
  let caught := Pool.Constant.describeClass handler.catchType
  s!"ExceptionHandler \x7b start_pc: {handler.start}, end_pc: {handler.stop}, " ++
    s!"handler_pc: {handler.target}, catch_type: {caught} \x7d"

def Code.HandlerFault.message : HandlerFault → String
  | emptyRange start stop => s!"empty protected range {start}..{stop}"
  | offsetTooLarge offset => s!"offset {offset} exceeds 65535"
  | misfit handler length => s!"entry {handler.describe} does not fit code of length {length}"

def Error.message : Error → String
  | format fault => s!"I/O error: {fault.message}"
  | poolFull constant offset =>
    s!"constant pool is full at #{offset} (adding {constant.describe})"
  | badMagic bytes => s!"bad class file magic {hexList bytes}"
  | missingConstant index => s!"no constant at #{index}"
  | unexpectedConstant index expected => s!"constant #{index} is not a {expected}"
  | badDescriptor text => s!"malformed descriptor '{text}'"
  | malformedAttribute name => s!"malformed {name} attribute"
  | unknownOpcode offset opcode => s!"unknown opcode 0x{hexByte opcode} at {offset}"
  | truncatedInstruction offset => s!"instruction at {offset} runs past the end of the code"
  | malformedSwitch offset => s!"malformed switch at {offset}"
  | notABoundary offset => s!"{offset} is not an instruction boundary"
  | codeTooLong length => s!"method code of {length} bytes exceeds 65535 bytes"
  | stackTooDeep depth => s!"operand stack depth {depth} exceeds 65535"
  | tooManyLocals slots => s!"{slots} local variable slots exceeds 65535"
  | badHandlers fault => s!"malformed exception table: {fault.message}"
  | overflow => "attempt to add with overflow"

end ClassSplice
