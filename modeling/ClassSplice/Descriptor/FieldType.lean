import ClassSplice.Descriptor.Fault

namespace ClassSplice.Descriptor

inductive BaseType where
  | byte
  | char
  | double
  | float
  | int
  | long
  | short
  | boolean
  deriving DecidableEq, Repr

namespace BaseType

def letter : BaseType → Char
  | byte => 'B'
  | char => 'C'
  | double => 'D'
  | float => 'F'
  | int => 'I'
  | long => 'J'
  | short => 'S'
  | boolean => 'Z'

def ofLetter? : Char → Option BaseType
  | 'B' => some byte
  | 'C' => some char
  | 'D' => some double
  | 'F' => some float
  | 'I' => some int
  | 'J' => some long
  | 'S' => some short
  | 'Z' => some boolean
  | _ => none

@[simp] theorem ofLetter?_letter (type : BaseType) : ofLetter? type.letter = some type := by
  cases type <;> rfl

end BaseType

/-- Computational category of a value: it decides which family of typed instructions moves it. -/
inductive ValueKind where
  | int
  | long
  | float
  | double
  | reference
  deriving DecidableEq, Repr

/-- Local variable slots, or operand stack entries, that a value takes. -/
def ValueKind.slots : ValueKind → Nat
  | long | double => 2
  | int | float | reference => 1

inductive FieldType where
  | base (type : BaseType)
  | object (className : String)
  | array (element : FieldType)
  deriving DecidableEq, Repr

namespace FieldType

def kind : FieldType → ValueKind
  | base .long => .long
  | base .float => .float
  | base .double => .double
  | base _ => .int
  | object _ | array _ => .reference

def width (type : FieldType) : Nat :=
  type.kind.slots

def isReference : FieldType → Bool
  | base _ => false
  | object _ | array _ => true

def renderChars : FieldType → List Char
  | base type => [type.letter]
  | object name => 'L' :: (name.toList ++ [';'])
  | array element => '[' :: element.renderChars

def render (type : FieldType) : String :=
  String.ofList type.renderChars

/-- The name under which a class constant refers to the type: the plain name of a class, the
descriptor of an array. -/
def className? : FieldType → Option String
  | base _ => none
  | object name => some name
  | array element => some (array element).render

end FieldType

def isNameEnd (c : Char) : Bool :=
  c == ';' || c == '.' || c == '['

/-- The class name up to its semicolon; the characters already read are held in reverse. -/
def readClassName (read : List Char) : List Char → Except Fault (String × List Char)
  | [] => .error (.malformedClassName (String.ofList read.reverse))
  | c :: rest =>
    if c = ';' ∧ read ≠ [] then .ok (String.ofList read.reverse, rest)
    else if isNameEnd c then .error (.malformedClassName (String.ofList read.reverse))
    else readClassName (c :: read) rest

theorem length_of_readClassName {read text rest : List Char} {name : String}
    (success : readClassName read text = .ok (name, rest)) : rest.length < text.length := by
  induction text generalizing read with
  | nil => simp [readClassName] at success
  | cons c text ih =>
    unfold readClassName at success
    split at success
    · simp_all
    · split at success
      · simp at success
      · have := ih success
        simp only [List.length_cons]
        omega

namespace FieldType

/-- The type whose descriptor starts the text, and the text behind it. -/
def read : List Char → Except Fault (FieldType × List Char)
  | [] => .error .missingFieldType
  | c :: rest =>
    if c = 'L' then
      match readClassName [] rest with
      | .ok (name, rest) => .ok (object name, rest)
      | .error fault => .error fault
    else if c = '[' then
      match read rest with
      | .ok (element, rest) => .ok (array element, rest)
      | .error fault => .error fault
    else
      match BaseType.ofLetter? c with
      | some type => .ok (base type, rest)
      | none => .error (.badFieldType c)

theorem length_of_read {text rest : List Char} {type : FieldType}
    (success : read text = .ok (type, rest)) : rest.length < text.length := by
  induction text generalizing type rest with
  | nil => simp [read] at success
  | cons c text ih =>
    unfold read at success
    split at success
    · split at success
      · rename_i named
        have := length_of_readClassName named
        simp only [Except.ok.injEq, Prod.mk.injEq] at success
        grind
      · simp at success
    · split at success
      · split at success
        · rename_i element
          have := ih element
          simp only [Except.ok.injEq, Prod.mk.injEq] at success
          grind
        · simp at success
      · split at success
        · simp_all
        · simp at success

/-- The class or array type whose descriptor starts the text, and the text behind it. -/
def readReference (text : List Char) : Except Fault (FieldType × List Char) :=
  match text with
  | [] => .error .missingReferenceType
  | c :: _ => if c = 'L' ∨ c = '[' then read text else .error (.badReferenceType c)

end FieldType

/-- The primitive type whose letter starts the text, and the text behind it. -/
def BaseType.read : List Char → Except Fault (BaseType × List Char)
  | [] => .error .missingBaseType
  | c :: rest =>
    match ofLetter? c with
    | some type => .ok (type, rest)
    | none => .error (.badBaseType c)

def complete {α : Type} (read : List Char → Except Fault (α × List Char)) (text : String) :
    Except Fault α :=
  match read text.toList with
  | .ok (value, []) => .ok value
  | .ok (_, c :: _) => .error (.leftover c)
  | .error fault => .error fault

def BaseType.parse : String → Except Fault BaseType :=
  complete BaseType.read

def FieldType.parse : String → Except Fault FieldType :=
  complete FieldType.read

def FieldType.parseReference : String → Except Fault FieldType :=
  complete FieldType.readReference

end ClassSplice.Descriptor
