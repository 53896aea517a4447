import ClassSplice.Error

namespace ClassSplice.Assembler

inductive Token where
  | word (text : String)
  | quoted (text : String)
  deriving DecidableEq, Repr

def Token.describe : Token → String
  | word text => s!"Word({Text.Quoted.encode text})"
  | quoted text => s!"Str({Text.Quoted.encode text})"

inductive SyntaxFault where
  | unbalancedBrace
  /-- No character is escaped this way; a blank stands for the end of the line. -/
  | badEscape (c : Char)
  | unterminatedString
  | missing (what : String)
  | foundWord (what word : String)
  | foundQuoted (what text : String)
  | foundOtherKeyword (keyword word : String)
  | unexpectedOperand (token : Token)
  | badVariableName (name : String)
  | badSlot (slot : Int)
  | notAnInt (value : Int)
  | tooManyArguments (name : String)
  | noDimension
  | noTableLabel
  | tooManyTableLabels
  | duplicateKey (key : Int32)
  | outOfRange (label : String)
  | dynamicCall
  | explicitWide
  deriving DecidableEq, Repr

inductive Cause where
  | badSyntax (fault : SyntaxFault)
  | unknownInstruction (mnemonic : String)
  | unknownVariable (name : String)
  | undefinedLabel (label : String)
  | duplicateLabel (label : String)
  | badType (text : String)
  | stackUnderflow
  | encoding (error : Error)
  deriving DecidableEq, Repr

structure Fault where
  line : Nat
  cause : Cause
  deriving DecidableEq, Repr

def SyntaxFault.message : SyntaxFault → String
  | unbalancedBrace => "unbalanced '\x7b'"
  | badEscape c => "bad escape '\\" ++ c.toString ++ "'"
  | unterminatedString => "unterminated string literal"
  | missing what => s!"expected {what}"
  | foundWord what word => s!"expected {what}, found '{word}'"
  | foundQuoted what text => s!"expected {what}, found \"{text}\""
  | foundOtherKeyword keyword word => s!"expected '{keyword}', found '{word}'"
  | unexpectedOperand token => s!"unexpected operand {token.describe}"
  | badVariableName name => s!"'{name}' is not a valid variable name"
  | badSlot slot => s!"invalid local slot {slot}"
  | notAnInt value => s!"{value} does not fit in an int"
  | tooManyArguments name => s!"too many arguments for '{name}'"
  | noDimension => "an array needs at least one dimension"
  | noTableLabel => "tableswitch needs at least one label"
  | tooManyTableLabels => "too many tableswitch labels"
  | duplicateKey key => s!"duplicate lookupswitch key {key}"
  | outOfRange label => s!"label '{label}' is out of range, use goto_w"
  | dynamicCall => "invokedynamic is not supported"
  | explicitWide => "'wide' is picked automatically for large operands"

def Cause.message : Cause → String
  | badSyntax fault => fault.message
  | unknownInstruction mnemonic => s!"unknown instruction '{mnemonic}'"
  | unknownVariable name => s!"unknown variable '{name}'"
  | undefinedLabel label => s!"label '{label}' is never defined"
  | duplicateLabel label => s!"label '{label}' is already defined"
  | badType text => s!"malformed type '{text}'"
  | stackUnderflow => "operand stack underflow"
  | encoding error => error.message

def Fault.message (fault : Fault) : String :=
  s!"line {fault.line}: {fault.cause.message}"

end ClassSplice.Assembler
