import SystemT.CommandLine.Run

/-!
# The program

Input and output for `SystemT.CommandLine`: files are read when they are asked for, and the
interactive loop answers line by line.
-/

open SystemT

/-- The text of a file. -/
def fileText (file : String) : IO (Except FileError String) := do
  try
    match String.fromUTF8? (← IO.FS.readBinFile file) with
    | some text => pure (.ok text)
    | none => pure (.error .notText)
  catch
    | .noFileOrDirectory _ _ _ => pure (.error .notFound)
    | .inappropriateType _ 20 _ => pure (.error .notDirectory)
    | .inappropriateType _ _ _ => pure (.error .isDirectory)
    | .invalidArgument _ 36 _ => pure (.error .nameTooLong)
    | e => pure (.error (.other (toString e)))

/-- Show a report and exit as it says. -/
def finish (report : Report) : IO UInt32 := do
  (← IO.getStdout).putStr report.shown
  unless report.complaint.isEmpty do (← IO.getStderr).putStrLn report.complaint
  return report.exitCode.toUInt32

/-- Read and answer lines until there are no more or one of them quits. -/
partial def converse (s : Session) : IO UInt32 := do
  let out ← IO.getStdout
  out.putStr Repl.prompt
  out.flush
  let line ← (← IO.getStdin).getLine
  if line.isEmpty then return 0
  match Tools.standard.edit line with
  | .error f => finish ⟨"", f.message, CommandLine.faulted⟩
  | .ok line =>
    let command := Repl.Command.ofLine line
    let text ←
      match command with
      | .load file => fileText file
      | _ => pure (.error .notFound)
    match Repl.answer (fun _ => text) ampleFuel s command with
    | .error f => finish ⟨"", f.message, CommandLine.faulted⟩
    | .ok (text, next) =>
      out.putStr text
      match next with
      | none => return 0
      | some s => converse s

/-- Process a file. -/
def processFile (mode : Mode) (file : String) : IO UInt32 := do
  let text ← fileText file
  finish (CommandLine.runFile (fun _ => text) ampleFuel mode file)

def main (args : List String) : IO UInt32 := do
  match CommandLine.task .standard args with
  | .error report => finish report
  | .ok (.check file) => processFile .check file
  | .ok (.eval file) => processFile .eval file
  | .ok .repl =>
    (← IO.getStdout).putStr Repl.banner
    converse {}
