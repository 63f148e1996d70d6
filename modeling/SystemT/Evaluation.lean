import SystemT.Term.Closed
import SystemT.Term.Printer
import SystemT.Term.Subst

/-!
# Evaluation

Closed terms are evaluated call by value. Values are abstractions, truth values, numerals, other
successors of values, and pairs of values.

An argument that is put into a body is a value already. A subterm that is recognised as a value is
returned without another walk, and substitution does not look into it; this keeps a numeral from
being walked once per round of a recursion, and a value that shares its parts from being walked at
all. What is recognised is a parameter (`Recogniser`). The evaluator hands it the table of the
values that it is working with and the place where it met the subterm: recognition is per
occurrence, so that a value may be recognised at one place and an equal one missed at another, as by
a test of the identity of nodes. Any test that is true of nothing but entries of the table and
closed values gives the same results. The test in use is `closedValue`.

The places are numbered so that no two questions of one evaluation are about different nodes, or
different tables, at the same place: each part of a term, each application, each round of a
recursion and each body has a turn of its own.

Evaluation is total by fuel: `eval` goes at most `fuel` calls deep and ends with the fault
`Fault.outOfFuel` beyond that, which is neither a value nor an evaluation error.
-/

namespace SystemT

/-- Why a term has no value. -/
inductive EvalError where
  /-- An index with no binder. -/
  | openTerm (index : Nat)
  /-- A constant without a definition. -/
  | unresolved (x : Ident)
  | notFunction (t : Term)
  | notBool (t : Term)
  | notNat (t : Term)
  | notPair (t : Term)
deriving DecidableEq, Repr, Inhabited

/-- The text of an evaluation error. -/
def EvalError.message : EvalError → String
  | openTerm i => "cannot evaluate open term: bound index " ++ Nat.repr i ++ " has no binder"
  | unresolved x => "constant " ++ toString x ++ " has no definition"
  | notFunction t => "expected a function, got " ++ toString t
  | notBool t => "expected a boolean, got " ++ toString t
  | notNat t => "expected a numeral, got " ++ toString t
  | notPair t => "expected a pair, got " ++ toString t

namespace Evaluation

/-- A value, or why there is none. -/
abbrev Result := Except (Failure EvalError) Term

/-- Evaluation failed because of the term. -/
def fail (e : EvalError) : Result := .error (.error e)

/-- A test for values, which is told the place where a term is met and given a table of some values.
It may miss any. As the place counts, terms that are equal need not be treated alike: in the course
of one evaluation a place is that of one node, so that a test of the identity of nodes is such a
test. -/
abbrev Recogniser := Place → List Term → Term → Bool

/-- Recognise every closed value, wherever it is met, be it in the table or not. -/
def closedValue : Recogniser := fun _ _ t => t.isClosedValue

/-- The part of a chain of successors that is still to be evaluated: the number of successors, `n`
of which were passed already, and the innermost term with its place. There is none if the chain ends
in zero or reaches a known value. -/
def openChain? (known : Place → Term → Bool) (place : Place) (n : Nat) :
    Term → Option (Nat × Place × Term)
  | .succ t =>
    if known (0 :: place) t then none else openChain? known (0 :: place) (n + 1) t
  | .zero => none
  | t => some (n, place, t)

/-- Apply a value to a value. `ev` evaluates the body, with the argument as the newest value. -/
def applyWith (known : Recogniser) (ev : Place → List Term → Term → Result) (place : Place)
    (values : List Term) (fn arg : Term) : Result :=
  match fn with
  | .lam b =>
    ev (1 :: place) (arg :: values)
      (if known (0 :: place) values b then b
        else b.substSharing 0 arg (fun p => known p values) (0 :: place))
  | other => fail (.notFunction other)

/-- Go from the result `acc` of a recursion at `pred` to its result `n` steps later, with
`rec b s (k + 1) = s k (rec b s k)` at each step. -/
def climb (apply : Place → List Term → Term → Term → Result) (place : Place) (values : List Term)
    (step : Term) : (n : Nat) → (pred acc : Term) → Result
  | 0, _, acc => .ok acc
  | n + 1, pred, acc =>
    match apply (0 :: place) (pred :: values) step pred with
    | .error e => .error e
    | .ok stepAtPred =>
      match apply (1 :: place) (pred :: values) stepAtPred acc with
      | .error e => .error e
      | .ok next => climb apply (2 :: place) values step n (.succ pred) next

/-- Evaluate a closed term that is met at a place, with the values in a table at hand. -/
def eval (known : Recogniser) (fuel : Nat) (place : Place) (values : List Term) (t : Term) :
    Result :=
  match fuel with
  | 0 => .error (.fault .outOfFuel)
  | fuel + 1 =>
    if known place values t then .ok t
    else
      match t with
      | .fvar x => fail (.unresolved x)
      | .bvar i => fail (.openTerm i)
      | .lam _ => .ok t
      | .tt => .ok t
      | .ff => .ok t
      | .zero => .ok t
      | .app f a => do
        let f ← eval known fuel (0 :: place) values f
        let a ← eval known fuel (1 :: place) values a
        applyWith known (eval known fuel) (2 :: place) values f a
      | .pair a b => do
        let a ← eval known fuel (0 :: place) values a
        let b ← eval known fuel (1 :: place) values b
        .ok (.pair a b)
      | .fst p => do
        match ← eval known fuel (0 :: place) values p with
        | .pair a _ => .ok a
        | other => fail (.notPair other)
      | .snd p => do
        match ← eval known fuel (0 :: place) values p with
        | .pair _ b => .ok b
        | other => fail (.notPair other)
      | .cond c t e => do
        match ← eval known fuel (0 :: place) values c with
        | .tt => eval known fuel (1 :: place) values t
        | .ff => eval known fuel (2 :: place) values e
        | other => fail (.notBool other)
      | .succ _ =>
        match openChain? (fun p => known p values) place 0 t with
        | none => .ok t
        | some (n, below, base) => do
          let v ← eval known fuel below values base
          .ok (.succs n v)
      | .natRec base step scrutinee => do
        let n ← eval known fuel (2 :: place) values scrutinee
        match n.asNumeral? with
        | none => fail (.notNat n)
        | some count =>
          let step ← eval known fuel (1 :: place) values step
          let acc ← eval known fuel (0 :: place) values base
          climb (applyWith known (eval known fuel)) (3 :: place) values step count .zero acc

end Evaluation

/-- The value of a term, with values recognised as `known` says. Open terms are refused at once. -/
def Term.tryEvaluateWith (known : Evaluation.Recogniser) (t : Term) (fuel : Nat) :
    Evaluation.Result :=
  match t.firstEscaping? 0 with
  | some i => Evaluation.fail (.openTerm i)
  | none => Evaluation.eval known fuel [] [] t

/-- The value of a term, with every closed value recognised. -/
def Term.tryEvaluate (t : Term) (fuel : Nat) : Evaluation.Result :=
  t.tryEvaluateWith Evaluation.closedValue fuel

/-- More fuel than an evaluation can use up. -/
def ampleFuel : Nat := 0x4000000000000000

/-- What `Term.evaluate` says of a term that has no value: its caller promised that the term type
checks, and it does not. -/
structure BrokenPromise where
  cause : EvalError
deriving DecidableEq, Repr

/-- The text of a broken promise. -/
def BrokenPromise.message (e : BrokenPromise) : String :=
  "evaluate called on a term that does not type check: " ++ e.cause.message

/-- The value of a term that is known to type check. -/
def Term.evaluate (t : Term) (fuel : Nat) : Except (Failure BrokenPromise) Term :=
  (t.tryEvaluate fuel).mapError (Failure.map BrokenPromise.mk)

end SystemT
