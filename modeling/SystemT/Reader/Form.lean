import SystemT.Reader.Term
import SystemT.Reader.Ty

/-!
# Reading forms

A source file is a sequence of forms: a definition `(def name term)`, a declaration
`(axiom name type)`, or any other term, which is an expression.
-/

namespace SystemT

/-- A top-level form, with the range of text from its first to its last token. -/
inductive Form where
  | define (name : Ident) (term : Term) (span : Span)
  | declare (name : Ident) (ty : Ty) (span : Span)
  | expr (term : Term) (span : Span)
deriving DecidableEq, Repr, Inhabited

namespace Form

/-- Where a form stands. -/
def span : Form → Span
  | define _ _ span => span
  | declare _ _ span => span
  | expr _ span => span

end Form

namespace Reader

/-- The range from `start` to the end of the token taken last. -/
def spanFrom (start : Nat) : ReadM Span := return ⟨start, (← get).lastStop⟩

/-- Read a form. -/
def form : ReadM Form := do
  let fuel := (← get).budget
  match ← peek with
  | none => fellShort
  | some (.lparen, first) =>
    let _ ← next
    let (head, headSpan) ← symbol
    match head with
    | "def" => do
      let (name, _) ← symbol
      let t ← termWithin fuel
      rparen
      pure (.define (.named name) t (← spanFrom first.start))
    | "axiom" => do
      let (name, _) ← symbol
      let t ← tyWithin fuel
      rparen
      pure (.declare (.named name) t (← spanFrom first.start))
    | head => do
      let t ← compoundTerm (termWithin fuel) fuel head headSpan
      pure (.expr t (← spanFrom first.start))
  | some (_, first) =>
    let t ← termWithin fuel
    pure (.expr t (← spanFrom first.start))

/-- Read at most `fuel` forms up to the end of the text; the latest of those read is first in
`forms`. -/
def formsWithin (fuel : Nat) (forms : List Form) : ReadM (List Form) :=
  match fuel with
  | 0 => fellShort
  | fuel + 1 => do
    if ← atEnd then pure forms.reverse
    else formsWithin fuel ((← form) :: forms)

/-- Read all forms that are left. -/
def program : ReadM (List Form) := do formsWithin (← get).budget []

end Reader

end SystemT
