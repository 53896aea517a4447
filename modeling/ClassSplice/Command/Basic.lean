import ClassSplice.Command.Arguments
import ClassSplice.Edit.Snippet

namespace ClassSplice.Command

open Edit (Editor EditM)

/-- Which method to edit: the only one of a name and, where one is given, a descriptor. -/
structure Selector where
  name : String
  descriptor : Option String
  deriving DecidableEq, Repr

namespace Selector

/-- A descriptor is split off at the first colon, or else begins at the first parenthesis. -/
def ofString (text : String) : Selector :=
  let chars := text.toList
  match chars.dropWhile (· ≠ ':') with
  | _ :: descriptor =>
    ⟨String.ofList (chars.takeWhile (· ≠ ':')), some (String.ofList descriptor)⟩
  | [] =>
    match chars.dropWhile (· ≠ '(') with
    | [] => ⟨text, none⟩
    | descriptor => ⟨String.ofList (chars.takeWhile (· ≠ '(')), some (String.ofList descriptor)⟩

def line (name descriptor : String) : String :=
  name ++ ":" ++ descriptor

end Selector

inductive Failure where
  | unreadable (path : String)
  | unwritable (path : String)
  | edit (fault : Edit.Fault)
  deriving DecidableEq, Repr

def Failure.message : Failure → String
  | unreadable path => s!"cannot read '{path}'"
  | unwritable path => s!"cannot write '{path}'"
  | edit fault => fault.message

structure Outcome where
  text : String
  file : Option (String × List UInt8)
  failure : Option Failure

namespace Outcome

def failed (failure : Failure) : Outcome :=
  ⟨"", none, some failure⟩

def exitCode (outcome : Outcome) : UInt32 :=
  if outcome.failure.isSome then 1 else 0

def withoutFile (outcome : Outcome) : Outcome :=
  match outcome.file with
  | some (path, _) => { outcome with file := none, failure := some (.unwritable path) }
  | none => outcome

end Outcome

def listing (editor : Editor) : Except Edit.Fault String := do
  let methods ← editor.methodNames
  return String.join (methods.map fun (name, descriptor) => Selector.line name descriptor ++ "\n")

/-- Edit the method at an index: its body is replaced first, and a handler covers all that was
inserted before. -/
def Edits.apply (edits : Edits) (index : Nat) : EditM Unit := do
  if let some source := edits.body then
    Edit.setBody assemble index source
  if let some source := edits.before then
    Edit.insertBefore assemble index source
  if let some source := edits.after then
    Edit.insertAfter assemble index source edits.afterAsFinally
  if let some handler := edits.handler then
    Edit.addCatch assemble index handler.source handler.exceptionType handler.name

namespace Request

def edit (request : Request) : EditM Unit := do
  if let some text := request.method then
    let selector := Selector.ofString text
    match (← get).findMethod selector.name selector.descriptor with
    | .ok index => request.edits.apply index
    | .error fault => throw fault

/-- Write a class out. A class that cannot be written whole leaves a part of it in the file. -/
def save (request : Request) (editor : Editor) : Outcome :=
  match editor.save with
  | (.ok (contents, fault), _) =>
    ⟨"", some (request.output.getD request.input, contents), fault.map .edit⟩
  | (.error fault, _) => .failed (.edit fault)

/-- Carry out a request, given what the input file holds if it can be read. -/
def perform (request : Request) (contents : Option (List UInt8)) : Outcome :=
  match contents with
  | none => .failed (.unreadable request.input)
  | some bytes =>
    match Editor.parse bytes with
    | .error fault => .failed (.edit fault)
    | .ok editor =>
      if request.lists then
        match listing editor with
        | .ok text => ⟨text, none, none⟩
        | .error fault => .failed (.edit fault)
      else
        match request.edit editor with
        | (.error fault, _) => .failed (.edit fault)
        | (.ok (), editor) => request.save editor

end Request

def versionText : String := "Class file patcher 0.1.0\n"

def helpText : String :=
  "Splice bytecode snippets into the methods of compiled JVM classes\n\n" ++
  "Usage: [OPTIONS] <INPUT>\n\n" ++
  "  -o, --output <FILE>               Where to write the class, if not over the input\n" ++
  "      --list                        Print the methods of the class\n" ++
  "  -m, --method <NAME[:DESCRIPTOR]>  Method to edit\n" ++
  "      --body <SNIPPET>              Replace the body of the method\n" ++
  "      --before <SNIPPET>            Insert code at the start of the method\n" ++
  "      --after <SNIPPET>             Insert code before every return\n" ++
  "      --finally                     Run the code of --after when the method throws, too\n" ++
  "      --catch <SNIPPET>             Handle exceptions; the code must return or throw\n" ++
  "      --catch-type <CLASS_NAME>     Class of the exceptions that --catch handles\n" ++
  "      --catch-name <NAME>           Name of the exception in the code of --catch\n" ++
  "  -h, --help                        Print this help\n" ++
  "  -V, --version                     Print the version\n"

/-- The exit code and the text for standard output where the arguments make no request. -/
def Stop.response : Stop → UInt32 × String
  | refused => (2, "")
  | help => (0, helpText)
  | version => (0, versionText)

end ClassSplice.Command
