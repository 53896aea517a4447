import ClassSplice.Command.Basic

open ClassSplice

def readFile? (path : String) : IO (Option (List UInt8)) := do
  try
    return some (← IO.FS.readBinFile path).toList
  catch _ =>
    return none

def saveFile (path : String) (bytes : List UInt8) : IO Unit := do
  match path.toList.reverse.dropWhile (· ≠ '/') with
  | _ :: directory@(_ :: _) => IO.FS.createDirAll (String.ofList directory.reverse)
  | _ => pure ()
  IO.FS.writeBinFile path ⟨bytes.toArray⟩

def finish (outcome : Command.Outcome) : IO Command.Outcome := do
  match outcome.file with
  | none => return outcome
  | some (path, bytes) =>
    try
      saveFile path bytes
      return outcome
    catch _ =>
      return outcome.withoutFile

def main (args : List String) : IO UInt32 := do
  match Command.Request.ofArguments args with
  | .error stop =>
    let (code, text) := stop.response
    IO.print text
    if code ≠ 0 then IO.eprintln "error: bad arguments; --help explains them"
    return code
  | .ok request =>
    let outcome ← finish (request.perform (← readFile? request.input))
    IO.print outcome.text
    if let some failure := outcome.failure then
      IO.eprintln s!"error: {failure.message}"
    return outcome.exitCode
