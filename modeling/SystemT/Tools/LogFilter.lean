import SystemT.Fault
import SystemT.Text.Bytes
import SystemT.Tools.PatternReader

/-!
# Log filters

A log filter is a list of directives with commas between them. A directive is a level or a target;
a target may be followed by a span in brackets, which may also stand alone, and by `=` with a level
or nothing. A span has a name, and one field in braces may follow it; a field may have a value,
which is a number or a pattern. Filters select nothing that this program shows; they are only
checked.

The parts of a directive are found in it without the blanks around it, by their offsets in bytes.
Their texts are then taken from the directive as it was given, at the same offsets. Blanks before a
directive thus shift these texts, and if that makes one of them begin or end inside a character,
it is a fault.
-/

namespace SystemT

namespace Tools

namespace LogFilter

/-- A filter is wrong. -/
inductive FilterError where
  | malformed
deriving DecidableEq, Repr, Inhabited

/-- The outcome of a check. -/
abbrev Check := Except (Failure FilterError)

/-- The check fails because of the filter. -/
def malformed {α : Type} : Check α := .error (.error .malformed)

/-! ## Levels -/

/-- The value of a number in decimal digits, with `+` before them or nothing. -/
def number? (s : List Char) : Option Nat :=
  let digits := if s.head? = some '+' then s.tail else s
  if digits.isEmpty || !digits.all Char.isDigit then none
  else some (digits.foldl (fun n c => 10 * n + (c.toNat - '0'.toNat)) 0)

/-- A text in small letters, as far as it is ASCII. -/
def small (s : List Char) : String := .ofList (s.map Char.toLower)

/-- Is this the name of a level, in any case, or the number of one? -/
def isLevel (s : List Char) : Bool :=
  ["trace", "debug", "info", "warn", "error", "off"].contains (small s) ||
    (number? s).any (· ≤ 5)

/-! ## Values of fields -/

/-- Is this what may follow the digits of a number: nothing, or an exponent? -/
def isExponent : List Char → Bool
  | [] => true
  | c :: cs =>
    let digits := if cs.head? = some '+' || cs.head? = some '-' then cs.tail else cs
    (c = 'e' || c = 'E') && !digits.isEmpty && digits.all Char.isDigit

/-- Is this a number, with a sign or without? The infinite one and the one that is none count. -/
def isNumber (s : List Char) : Bool :=
  let s := if s.head? = some '+' || s.head? = some '-' then s.tail else s
  let whole := s.takeWhile Char.isDigit
  let rest := s.dropWhile Char.isDigit
  let fraction := if rest.head? = some '.' then rest.tail else []
  let tail := if rest.head? = some '.' then fraction.dropWhile Char.isDigit else rest
  ["inf", "infinity", "nan"].contains (small s) ||
    !(whole.isEmpty && (fraction.takeWhile Char.isDigit).isEmpty) && isExponent tail

/-- Is this a field, with a value or without? What follows a second `=` does not count. -/
def isField (s : List Char) : Bool :=
  match s.dropWhile (· != '=') with
  | [] => true
  | _ :: value =>
    let value := value.takeWhile (· != '=')
    isNumber value || (Pattern.ofChars? value).any Pattern.isSupported

/-! ## Directives -/

/-- May a target or a level begin with this character? -/
def beginsTarget (c : Char) : Bool :=
  c = '_' || c = ':' || c = '-' || isAlphanumeric c

/-- The text from one offset to another one in the directive as it was given. -/
def textAt (given : List Char) (start stop : Nat) : Check (List Char) :=
  let text? := do
    let (_, rest) ← Text.splitAtByte? start given
    let (text, _) ← Text.splitAtByte? (stop - start) rest
    pure text
  match text? with
  | some text => .ok text
  | none => .error (.fault .cutCharacter)

/-- Check the level from an offset on. -/
def checkLevel (given : List Char) (start : Nat) : Check Unit := do
  let level ← textAt given start (Text.byteCount given)
  if level.isEmpty || isLevel level then pure () else malformed

/-- Check what follows a span, from an offset on: nothing, or `=` with a level or nothing. -/
def checkEnd (given : List Char) (start : Nat) : List Char → Check Unit
  | [] => pure ()
  | '=' :: _ => checkLevel given (start + 1)
  | _ => malformed

/-- Check the field that starts at an offset, and what follows it. -/
def checkField (given : List Char) (start : Nat) (cs : List Char) : Check Unit := do
  let stop := start + Text.byteCount (cs.takeWhile (· != '\x7d'))
  match cs.dropWhile (· != '\x7d') with
  | [] => malformed
  | _ :: rest =>
    let field ← textAt given start stop
    if field.isEmpty || !isField field then malformed
    match rest with
    | ']' :: rest => checkEnd given (stop + 2) rest
    | _ => malformed

/-- Check the span that starts, after its bracket, at an offset, and what follows it. -/
def checkSpan (given : List Char) (start : Nat) (cs : List Char) : Check Unit := do
  let inName := fun c => c != ']' && c != '\x7b'
  let stop := start + Text.byteCount (cs.takeWhile inName)
  match cs.dropWhile inName with
  | [] => malformed
  | c :: rest =>
    let _ ← textAt given start stop
    if c = ']' then checkEnd given (stop + 1) rest else checkField given (stop + 1) rest

/-- Check one directive. -/
def checkDirective (directive : String) : Check Unit := do
  let given := directive.toList
  match (Text.trim directive).toList with
  | [] => malformed
  | '[' :: span => checkSpan given 1 span
  | first :: cs =>
    if !beginsTarget first then malformed
    let inTarget := fun c => c != '=' && c != '['
    let stop := Text.byteCount (first :: cs.takeWhile inTarget)
    match cs.dropWhile inTarget with
    | [] => pure ()
    | c :: rest =>
      let _ ← textAt given 0 stop
      if c = '[' then checkSpan given (stop + 1) rest else checkLevel given (stop + 1)

/-- Check a log filter. Empty directives are passed over. -/
def check (filter : String) : Check Unit :=
  ((filter.splitOn ",").filter fun d => !d.isEmpty).forM checkDirective

end LogFilter

end Tools

end SystemT
