import ClassSplice.Descriptor.FieldType

namespace ClassSplice.Descriptor

structure MethodType where
  parameters : List FieldType
  returns : Option FieldType
  deriving DecidableEq, Repr

namespace MethodType

def renderChars (type : MethodType) : List Char :=
  '(' :: (type.parameters.flatMap FieldType.renderChars ++
    ')' :: (match type.returns with
      | none => ['V']
      | some type => type.renderChars))

def render (type : MethodType) : String :=
  String.ofList type.renderChars

def parameterSlots (type : MethodType) (hasReceiver : Bool) : Nat :=
  type.parameters.foldl (fun slots parameter => slots + parameter.width)
    (if hasReceiver then 1 else 0)

def stackEffect (type : MethodType) (hasReceiver : Bool) : Int :=
  (type.returns.elim 0 FieldType.width : Nat) - (type.parameterSlots hasReceiver : Int)

/-- The parameter types up to the closing parenthesis, behind those already read, which are held in
reverse. -/
def readParameters (parameters : List FieldType) (text : List Char) :
    Except Fault (List FieldType × List Char) :=
  match text with
  | [] => .error .unclosedParameters
  | ')' :: rest => .ok (parameters.reverse, rest)
  | text =>
    match parameter : FieldType.read text with
    | .error fault => .error fault
    | .ok (type, rest) =>
      have _shorter := FieldType.length_of_read parameter
      readParameters (type :: parameters) rest
termination_by text.length

def readReturn : List Char → Except Fault (Option FieldType × List Char)
  | 'V' :: rest => .ok (none, rest)
  | text =>
    match FieldType.read text with
    | .ok (type, rest) => .ok (some type, rest)
    | .error fault => .error fault

/-- The type whose descriptor starts the text, and the text behind it. -/
def read : List Char → Except Fault (MethodType × List Char)
  | '(' :: text => do
    let (parameters, text) ← readParameters [] text
    let (returns, text) ← readReturn text
    .ok (⟨parameters, returns⟩, text)
  | _ => .error .missingParameters

def parse : String → Except Fault MethodType :=
  complete read

end MethodType
end ClassSplice.Descriptor
