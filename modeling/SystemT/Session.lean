import SystemT.Evaluation
import SystemT.Inference
import SystemT.Reader.Form
import SystemT.Term.Parallel
import SystemT.Ty.DisplayName

/-!
# Sessions

A session is what the forms read so far have declared and defined. A definition is stored with all
earlier definitions already put in, so that one parallel substitution expands an expression.

Forms of a source text are processed one after the other until one of them fails; a form that fails
changes nothing.
-/

namespace SystemT

/-- What to do with expressions. -/
inductive Mode where
  /-- Report types. -/
  | check
  /-- Report types and values. -/
  | eval
deriving DecidableEq, Repr, Inhabited

/-- Why a source text was not processed to its end. -/
inductive SessionError where
  | read (e : ReadError)
  | type (e : TypeError) (span : Span)
  | eval (e : EvalError) (span : Span)
deriving DecidableEq, Repr, Inhabited

namespace SessionError

/-- Where the error is. -/
def span : SessionError → Span
  | read e => e.span
  | type _ span => span
  | eval _ span => span

/-- The text of an error begins with the stage that failed. -/
def message : SessionError → String
  | read e => "parse error: " ++ e.message
  | type e _ => "type error: " ++ e.message
  | eval e _ => "evaluation error: " ++ e.message

end SessionError

/-- What a form led to. -/
inductive Outcome where
  | defined (name : Ident) (ty : Ty)
  | declared (name : Ident) (ty : Ty)
  | typed (term : Term) (ty : Ty)
  | evaluated (value : Term) (ty : Ty)
deriving DecidableEq, Repr, Inhabited

instance : ToString Outcome where
  toString
    | .defined x t => toString x ++ " : " ++ toString t
    | .declared x t => "axiom " ++ toString x ++ " : " ++ toString t
    | .typed e t => toString e ++ " : " ++ toString t
    | .evaluated v t => toString v ++ " : " ++ toString t

/-- What a source text led to. -/
structure Transcript where
  outcomes : List Outcome
  /-- The error that ended processing. -/
  error : Option SessionError
deriving Repr, Inhabited

/-- A line for each outcome, and one for the error if there was one. -/
def Transcript.render (t : Transcript) : String :=
  "\n".intercalate
    (t.outcomes.map toString ++ t.error.toList.map fun e => "error: " ++ e.message)

/-- Declarations, and the definitions of those constants that have one. -/
structure Session where
  ctx : Context := .empty
  defs : ConstSubst := ∅

instance : Inhabited Session := ⟨{}⟩

namespace Session

/-- The type that is shown for a term. -/
def infer (s : Session) (t : Term) (span : Span) : Except (Failure SessionError) Ty :=
  match typeCheck t s.ctx with
  | .ok r => .ok r.ty.withDisplayNames
  | .error e => .error (e.map (.type · span))

/-- Put in the definitions of all constants of a term. -/
def expand (s : Session) (t : Term) : Except (Failure SessionError) Term :=
  (t.substConsts? s.defs).mapError .fault

/-- Process a form. Evaluation goes at most `fuel` calls deep. -/
def process (s : Session) (fuel : Nat) (mode : Mode) (form : Form) :
    Except (Failure SessionError) (Outcome × Session) :=
  match form with
  | .define x t span => do
    let ty ← s.infer t span
    let body ← s.expand t
    pure (.defined x ty, ⟨s.ctx.declare x ty, s.defs.insert x body⟩)
  | .declare x ty _ => pure (.declared x ty, ⟨s.ctx.declare x ty, s.defs.erase x⟩)
  | .expr t span => do
    let ty ← s.infer t span
    match mode with
    | .check => pure (.typed t ty, s)
    | .eval =>
      let expanded ← s.expand t
      let value ← (expanded.tryEvaluate fuel).mapError (Failure.map (.eval · span))
      pure (.evaluated value ty, s)

/-- Read the next form, if there is one, and process it. The reader has then moved past it. -/
def advance (s : Session) (fuel : Nat) (mode : Mode) (reader : Reader) :
    Except (Failure SessionError) (Option (Outcome × Session × Reader)) :=
  match Reader.atEnd reader with
  | .error e _ => .error (.error (.read e))
  | .ok true _ => .ok none
  | .ok false reader =>
    match Reader.form reader with
    | .error e _ => .error (.error (.read e))
    | .ok form reader => do
      let (outcome, s) ← s.process fuel mode form
      pure (some (outcome, s, reader))

/-- Process at most `limit` forms; `outcomes` are those of the forms before, the latest first. -/
def runWithin (limit : Nat) (s : Session) (fuel : Nat) (mode : Mode) (reader : Reader)
    (outcomes : List Outcome) : Except Fault (Transcript × Session) :=
  match limit with
  | 0 => .ok (⟨outcomes.reverse, some (.read reader.endError)⟩, s)
  | limit + 1 =>
    match s.advance fuel mode reader with
    | .error (.fault f) => .error f
    | .error (.error e) => .ok (⟨outcomes.reverse, some e⟩, s)
    | .ok none => .ok (⟨outcomes.reverse, none⟩, s)
    | .ok (some (outcome, s, reader)) => runWithin limit s fuel mode reader (outcome :: outcomes)

/-- Process the forms of a source text up to the first that fails. -/
def run (s : Session) (fuel : Nat) (mode : Mode) (source : String) :
    Except Fault (Transcript × Session) :=
  let reader := Reader.ofString source
  runWithin reader.budget s fuel mode reader []

/-- The type of an expression that is the whole of a source text. -/
def typeOf (s : Session) (source : String) : Except (Failure SessionError) Ty := do
  let t ← (Term.ofString? source).mapError fun e => .error (.read e)
  s.infer t ⟨0, source.utf8ByteSize⟩

end Session

end SystemT
