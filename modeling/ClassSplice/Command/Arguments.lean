namespace ClassSplice.Command

inductive Keyword where
  | output
  | list
  | method
  | body
  | before
  | after
  | always
  | handler
  | caughtType
  | caughtName
  | help
  | version
  deriving DecidableEq, Repr

namespace Keyword

def longNames : List (String × Keyword) :=
  [("output", output), ("list", list), ("method", method), ("body", body), ("before", before),
    ("after", after), ("finally", always), ("catch", handler), ("catch-type", caughtType),
    ("catch-name", caughtName), ("help", help), ("version", version)]

def shortNames : List (Char × Keyword) :=
  [('o', output), ('m', method), ('h', help), ('V', version)]

def takesValue : Keyword → Bool
  | list | always | help | version => false
  | _ => true

def allowsEmpty (keyword : Keyword) : Bool :=
  keyword ≠ output

end Keyword

inductive Stop where
  | refused
  | help
  | version
  deriving DecidableEq, Repr

structure Settings where
  input : Option String
  values : List (Keyword × String)

namespace Settings

def empty : Settings :=
  ⟨none, []⟩

def get? (settings : Settings) (keyword : Keyword) : Option String :=
  settings.values.lookup keyword

def has (settings : Settings) (keyword : Keyword) : Bool :=
  (settings.get? keyword).isSome

def setInput (settings : Settings) (path : String) : Except Stop Settings :=
  if settings.input.isSome ∨ path = "" then .error .refused
  else .ok { settings with input := some path }

def set (settings : Settings) (keyword : Keyword) (value : String) : Except Stop Settings :=
  if keyword = .help then .error .help
  else if keyword = .version then .error .version
  else if settings.has keyword ∨ (value = "" ∧ !keyword.allowsEmpty) then .error .refused
  else .ok { settings with values := (keyword, value) :: settings.values }

def turnOn (settings : Settings) (keyword : Keyword) : Except Stop Settings :=
  set settings keyword "on"

end Settings

inductive Argument where
  | plain (text : String)
  | separator
  | option (keyword : Keyword) (value : Option String)
  | unknown
  deriving DecidableEq, Repr

namespace Argument

def splitValue (text : List Char) : String × Option String :=
  match text.dropWhile (· ≠ '=') with
  | _ :: value => (String.ofList (text.takeWhile (· ≠ '=')), some (String.ofList value))
  | [] => (String.ofList text, none)

def ofLong (text : List Char) : Argument :=
  let (name, value) := splitValue text
  match Keyword.longNames.lookup name with
  | some keyword => option keyword value
  | none => unknown

def ofShort (letter : Char) (rest : List Char) : Argument :=
  match Keyword.shortNames.lookup letter with
  | none => unknown
  | some keyword =>
    if !keyword.takesValue then option keyword none
    else match rest with
      | [] => option keyword none
      | '=' :: value => option keyword (some (String.ofList value))
      | value => option keyword (some (String.ofList value))

def ofString (text : String) : Argument :=
  match text.toList with
  | ['-', '-'] => separator
  | '-' :: '-' :: rest => ofLong rest
  | '-' :: letter :: rest => ofShort letter rest
  | _ => plain text

end Argument

/-- Read arguments from left to right; the first that is wrong, or that asks for help or the version,
decides. -/
def readArguments (settings : Settings) : List String → Except Stop Settings
  | [] => .ok settings
  | text :: rest =>
    match Argument.ofString text with
    | .unknown => .error .refused
    | .separator => rest.foldlM Settings.setInput settings
    | .plain path => do readArguments (← settings.setInput path) rest
    | .option keyword (some value) =>
      if keyword.takesValue then do readArguments (← settings.set keyword value) rest
      else .error .refused
    | .option keyword none =>
      if !keyword.takesValue then do readArguments (← settings.turnOn keyword) rest
      else match rest with
        | [] => .error .refused
        | value :: rest =>
          match Argument.ofString value with
          | .plain value => do readArguments (← settings.set keyword value) rest
          | _ => .error .refused

structure Catch where
  source : String
  exceptionType : String
  name : String
  deriving DecidableEq, Repr

structure Edits where
  body : Option String
  before : Option String
  after : Option String
  afterAsFinally : Bool
  handler : Option Catch
  deriving DecidableEq, Repr

structure Request where
  input : String
  output : Option String
  lists : Bool
  method : Option String
  edits : Edits
  deriving DecidableEq, Repr

def defaultCaughtName : String := "$e"

namespace Settings

/-- The request, if nothing is missing: the class file, a method unless methods are listed, code
for `finally` to run, and both of the two that a handler needs. -/
def toRequest (settings : Settings) : Except Stop Request := do
  let caughtName := (settings.get? .caughtName).getD defaultCaughtName
  let handler ← match settings.get? .handler, settings.get? .caughtType with
    | some source, some exceptionType => pure (some ⟨source, exceptionType, caughtName⟩)
    | none, none => pure none
    | _, _ => .error .refused
  match settings.input with
  | none => .error .refused
  | some input =>
    if !settings.has .method && !settings.has .list then .error .refused
    else if settings.has .always && !settings.has .after then .error .refused
    else
      return {
        input
        output := settings.get? .output
        lists := settings.has .list
        method := settings.get? .method
        edits := {
          body := settings.get? .body
          before := settings.get? .before
          after := settings.get? .after
          afterAsFinally := settings.has .always
          handler } }

end Settings

def Request.ofArguments (arguments : List String) : Except Stop Request := do
  (← readArguments .empty arguments).toRequest

end ClassSplice.Command
