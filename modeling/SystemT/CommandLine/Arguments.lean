/-!
# Arguments

The program is called as `check FILE`, `eval FILE`, `repl`, or without a command, which means
`repl`. `--log FILTER` or `--log=FILTER` may stand once before the command and once after it. After
`--` nothing is an option any more.
-/

namespace SystemT

/-- What the program is asked to do. -/
inductive Task where
  | check (file : String)
  | eval (file : String)
  | repl
deriving DecidableEq, Repr, Inhabited

/-- The arguments of a call, made sense of. -/
structure Arguments where
  task : Task
  /-- The log filter; one after the command counts more than one before it. -/
  log : Option String
deriving DecidableEq, Repr, Inhabited

namespace Arguments

/-- An argument that is an option, unless it comes after `--`. -/
def isOption (arg : String) : Bool := arg.toList.head? = some '-' && arg != "-"

/-- The filter of an argument `--log=FILTER`. -/
def inlineLog? (arg : String) : Option String :=
  if "--log=".toList.isPrefixOf arg.toList then some (.ofList (arg.toList.drop 6)) else none

/-- The log filter and the operands in a list of arguments, of which `log` and `operands`, the
latest first, were found already. -/
def operandsAndLog (log : Option String) (operands : List String) :
    List String → Option (List String × Option String)
  | [] => some (operands.reverse, log)
  | "--" :: rest => some (operands.reverse ++ rest, log)
  | "--log" :: filter :: rest =>
    if log.isSome || isOption filter then none else operandsAndLog (some filter) operands rest
  | arg :: rest =>
    match inlineLog? arg with
    | some filter => if log.isSome then none else operandsAndLog (some filter) operands rest
    | none => if isOption arg then none else operandsAndLog log (arg :: operands) rest

/-- The task that a command with its operands stands for. -/
def task? (command : String) (operands : List String) : Option Task :=
  match command, operands with
  | "check", [file] => if file.isEmpty then none else some (.check file)
  | "eval", [file] => if file.isEmpty then none else some (.eval file)
  | "repl", [] => some .repl
  | _, _ => none

/-- The arguments from the command on. -/
def afterCommand (log : Option String) (command : String) (rest : List String) :
    Option Arguments := do
  let (operands, innerLog) ← operandsAndLog none [] rest
  let task ← task? command operands
  pure ⟨task, innerLog.or log⟩

/-- Make sense of arguments, of which the log filter `log` was found already. -/
def parseFrom (log : Option String) : List String → Option Arguments
  | [] => some ⟨.repl, log⟩
  | ["--"] => some ⟨.repl, log⟩
  | "--log" :: filter :: rest =>
    if log.isSome || isOption filter then none else parseFrom (some filter) rest
  | arg :: rest =>
    match inlineLog? arg with
    | some filter => if log.isSome then none else parseFrom (some filter) rest
    | none => if isOption arg then none else afterCommand log arg rest

/-- Make sense of the arguments of a call. -/
def parse? (args : List String) : Option Arguments := parseFrom none args

end Arguments

end SystemT
