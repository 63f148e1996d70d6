import SystemT.CommandLine.Call
import SystemT.Tools.Backspace
import SystemT.Tools.LogFilter

/-!
# The program as it is built

The tools that calls are carried out with. `CommandLine.call` leaves open which these are.
-/

namespace SystemT

/-- Filters are lists of directives, and a backspace erases a grapheme cluster. -/
def Tools.standard : Tools where
  isLogFilter filter :=
    match LogFilter.check filter with
    | .ok () => .ok true
    | .error (.error .malformed) => .ok false
    | .error (.fault f) => .error f
  edit := rubOut

namespace CommandLine

/-- A call of the program with the standard tools. -/
def run (files : Files) (fuel : Nat) (args : List String) (input : String) : Report :=
  call .standard files fuel args input

end CommandLine

end SystemT
