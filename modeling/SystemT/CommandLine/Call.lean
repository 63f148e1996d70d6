import SystemT.CommandLine.Arguments
import SystemT.Repl

/-!
# The command line

What a call of the program shows and the code it exits with, as a function of its arguments, the
files at hand and its input. Two things are left to tools that the program is built with, and are
parameters here (`Tools`): which texts are log filters, and how a line is edited while it is typed.
-/

namespace SystemT

/-- What a call leaves to others. -/
structure Tools where
  /-- Is this text a log filter? Filters select nothing that a call shows. -/
  isLogFilter : String → Except Fault Bool
  /-- The line that is made of what was typed. -/
  edit : String → Except Fault String

/-- What a call shows and how it ends. -/
structure Report where
  shown : String
  /-- What is said about a call that failed, apart from what it shows. -/
  complaint : String := ""
  exitCode : Nat := 0
deriving DecidableEq, Repr, Inhabited

namespace CommandLine

/-- The exit code of a call that could not finish its task. -/
def failed : Nat := 1

/-- The exit code of a call with arguments that make no sense. -/
def misused : Nat := 2

/-- The exit code of a call that a fault ended. -/
def faulted : Nat := 101

/-- What is said about arguments that make no sense. -/
def usage : String := "usage: godel [--log FILTER] [check FILE | eval FILE | repl]"

/-- The task of a call, or what is reported if its arguments make no sense or its log filter is
wrong. -/
def task (tools : Tools) (args : List String) : Except Report Task :=
  match Arguments.parse? args with
  | none => .error ⟨"", usage, misused⟩
  | some parsed =>
    match parsed.log.map tools.isLogFilter with
    | none | some (.ok true) => .ok parsed.task
    | some (.ok false) => .error ⟨"", "invalid --log filter", misused⟩
    | some (.error f) => .error ⟨"", f.message, faulted⟩

/-- Process a file in a new session, with a line for each outcome. -/
def runFile (files : Files) (fuel : Nat) (mode : Mode) (file : String) : Report :=
  match files file with
  | .error e => ⟨"", "failed to read " ++ file ++ ": " ++ e.message, failed⟩
  | .ok source =>
    match ({} : Session).run fuel mode source with
    | .error f => ⟨"", f.message, faulted⟩
    | .ok (transcript, _) =>
      let shown := transcript.outcomes.foldl (fun shown o => shown ++ toString o ++ "\n") ""
      match transcript.error with
      | none => ⟨shown, "", 0⟩
      | some e => ⟨shown, file ++ ": " ++ e.message, failed⟩

/-- A conversation over the lines of an input. -/
def runRepl (tools : Tools) (files : Files) (fuel : Nat) (input : String) : Report :=
  match Repl.dialogue tools.edit files fuel Repl.banner {} (Repl.linesOf input) with
  | (shown, none) => ⟨shown, "", 0⟩
  | (shown, some f) => ⟨shown, f.message, faulted⟩

/-- A call of the program. -/
def call (tools : Tools) (files : Files) (fuel : Nat) (args : List String) (input : String) :
    Report :=
  match task tools args with
  | .error report => report
  | .ok (.check file) => runFile files fuel .check file
  | .ok (.eval file) => runFile files fuel .eval file
  | .ok .repl => runRepl tools files fuel input

end CommandLine

end SystemT
