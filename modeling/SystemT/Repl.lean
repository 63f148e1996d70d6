import SystemT.Session
import SystemT.Text.Chars

/-!
# The interactive loop

A line that begins with `:` is a command; any other line is source text, whose expressions are
evaluated. `Command.ofLine` tells which, `Repl.obey` carries a command out on a session, and
`Repl.dialogue` is a whole conversation over given lines of input. How a line is edited while it is
typed is not decided here.
-/

namespace SystemT

/-- Why a file could not be read as text. -/
inductive FileError where
  | notFound
  | isDirectory
  /-- A part of the path before the last one is a file. -/
  | notDirectory
  | nameTooLong
  | notText
  /-- Any other reason, in the words of the system. -/
  | other (reason : String)
deriving DecidableEq, Repr, Inhabited

/-- The text of a file error. -/
def FileError.message : FileError → String
  | notFound => "No such file or directory (os error 2)"
  | isDirectory => "Is a directory (os error 21)"
  | notDirectory => "Not a directory (os error 20)"
  | nameTooLong => "File name too long (os error 36)"
  | notText => "stream did not contain valid UTF-8"
  | other reason => reason

/-- How the contents of files are found. -/
abbrev Files := String → Except FileError String

/-- Read two types. -/
def Reader.twoTypes : ReadM (Ty × Ty) := do
  let left ← ty
  let right ← ty
  pure (left, right)

namespace Repl

/-! ## Commands -/

/-- What a line asks for. -/
inductive Command where
  | quit
  | help
  /-- Show the type of an expression. -/
  | type (source : String)
  /-- Process source text and show values. -/
  | eval (source : String)
  /-- Process a file. -/
  | load (file : String)
  /-- List the declared constants. -/
  | env
  /-- Unify two types. -/
  | unify (source : String)
  /-- A command without the argument that it needs. -/
  | usage (text : String)
  | unknown
deriving DecidableEq, Repr, Inhabited

/-- What a line asks for; blanks around it and around a command's argument do not count. A line of
blanks is source text without forms. -/
def Command.ofLine (line : String) : Command :=
  let line := Text.trim line
  if line.toList.head? = some ':' then
    let (name, rest) := Text.splitAtBlank line
    let arg := Text.trim (rest.getD "")
    match name with
    | ":quit" => quit
    | ":exit" => quit
    | ":help" => help
    | ":type" => if arg.isEmpty then usage "Usage: :type <expr>" else type arg
    | ":eval" => if arg.isEmpty then usage "Usage: :eval <expr>" else eval arg
    | ":load" => if arg.isEmpty then usage "Usage: :load <file>" else load arg
    | ":env" => env
    | ":unify" => unify arg
    | _ => unknown
  else eval line

/-- The text that `:help` shows. -/
def helpText : String :=
  "\n".intercalate [
    "Available commands:",
    "  :quit, :exit         Exit the REPL",
    "  :help                Show this help message",
    "  :load <file>         Load definitions from a file",
    "  :type <expr>         Show the type of an expression",
    "  :eval <expr>         Evaluate an expression",
    "  :env                 List declared constants",
    "  :unify <type> <type> Show the most general unifier of two types",
    "Any other input is read as (def ..), (axiom ..) or an expression to evaluate."]

/-! ## Answers -/

/-- What follows from a command. -/
inductive Action where
  | print (text : String)
  | quit
deriving DecidableEq, Repr, Inhabited

/-- One line for each declared constant. -/
def envText (s : Session) : String :=
  let line := fun (x, t) =>
    (if (s.defs.get? x).isSome then "def " else "axiom ") ++ toString x ++ " : " ++ toString t
  Text.trimEnd ("\n".intercalate (s.ctx.free.toList.map line))

/-- Unify two types and tell how many steps that took. -/
def unifyText (source : String) : Except Fault String :=
  match Reader.whole Reader.twoTypes source with
  | .error e => .ok ("Usage: :unify <type> <type> (" ++ e.message ++ ")")
  | .ok (left, right) =>
    let start : Unifier := { pending := [(left, right)] }
    match start.finish with
    | .ok done =>
      .ok (toString done.solution ++ " in " ++ Nat.repr done.steps ++ " steps from measure " ++
        toString start.measure)
    | .error (.error e) => .ok ("error: " ++ e.message)
    | .error (.fault f) => .error f

/-- Carry out a command. -/
def obey (files : Files) (fuel : Nat) (s : Session) (command : Command) :
    Except Fault (Action × Session) :=
  match command with
  | .quit => .ok (.quit, s)
  | .help => .ok (.print helpText, s)
  | .usage text => .ok (.print text, s)
  | .unknown => .ok (.print "Unknown command. Type :help for help.", s)
  | .env => .ok (.print (envText s), s)
  | .type source =>
    match s.typeOf source with
    | .ok t => .ok (.print (source ++ " : " ++ toString t), s)
    | .error (.error e) => .ok (.print ("error: " ++ e.message), s)
    | .error (.fault f) => .error f
  | .eval source => do
    let (transcript, s) ← s.run fuel .eval source
    pure (.print transcript.render, s)
  | .unify source => do pure (.print (← unifyText source), s)
  | .load file =>
    match files file with
    | .error e => .ok (.print ("Error reading file " ++ file ++ ": " ++ e.message), s)
    | .ok source => do
      let (transcript, s) ← s.run fuel .check source
      let text :=
        if transcript.error.isSome then transcript.render
        else "Loaded " ++ Nat.repr transcript.outcomes.length ++ " forms from " ++ file
      pure (.print text, s)

/-! ## Conversations -/

/-- What is shown at the start. -/
def banner : String := "godel REPL v0.1.0\nType :help for commands, :quit or Ctrl-D to leave.\n"

/-- What is shown before a line is read. -/
def prompt : String := "godel> "

/-- What is shown in answer to a command, and the session after it; after the last command there is
no session. -/
def answer (files : Files) (fuel : Nat) (s : Session) (command : Command) :
    Except Fault (String × Option Session) :=
  match obey files fuel s command with
  | .error f => .error f
  | .ok (.quit, _) => .ok ("", none)
  | .ok (.print text, s) => .ok (if text.isEmpty then "" else text.push '\n', some s)

/-- All that is shown while lines are read until they end or one of them quits, and the fault that
ended the conversation if there was one. `edit` makes a line of what was typed. -/
def dialogue (edit : String → Except Fault String) (files : Files) (fuel : Nat) (shown : String)
    (s : Session) : List String → String × Option Fault
  | [] => (shown ++ prompt, none)
  | typed :: lines =>
    match edit typed >>= fun line => answer files fuel s (.ofLine line) with
    | .error f => (shown ++ prompt, some f)
    | .ok (text, none) => (shown ++ prompt ++ text, none)
    | .ok (text, some s) => dialogue edit files fuel (shown ++ prompt ++ text) s lines

/-- The lines of a text; a line feed ends a line, and the last line may lack it. -/
def linesOf (input : String) : List String :=
  let pieces := input.splitOn "\n"
  if pieces.getLast? = some "" then pieces.dropLast else pieces

end Repl

end SystemT
