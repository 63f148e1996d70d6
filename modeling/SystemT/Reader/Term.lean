import SystemT.Reader.Basic
import SystemT.Term.Basic

/-!
# Reading terms

An integer is a bound index and a symbol a constant, `true`, `false` and `zero` apart. The forms of
lists are those that printing produces, and `(succ t)`; `(nat k)` is a numeral, and `(app f a …)`,
with at least one argument, nests to the left.
-/

namespace SystemT

/-- The largest numeral that can be written as `(nat k)`. -/
def maxNumeral : Nat := 1048576

/-- The term that a symbol spells. -/
def Term.ofSymbol (s : String) : Term :=
  match s with
  | "true" => .tt
  | "false" => .ff
  | "zero" => .zero
  | s => .fvar (.named s)

namespace Reader

/-- Read the integer of `(nat k)`. -/
def numeral : ReadM Term := do
  let (n, span) ← integer
  if n ≤ maxNumeral then pure (.numeral n)
  else throw ⟨.integerOutOfRange (Nat.repr n), span⟩

/-- The rest of a term that is a list, from its head on. Operands are read with `operand`, and an
application has at most `fuel` further ones after the second. -/
def compoundTerm (operand : ReadM Term) (fuel : Nat) (head : String) (span : Span) :
    ReadM Term := do
  let t ←
    match head with
    | "lam" => .lam <$> operand
    | "app" => do
      let f ← operand
      let a ← operand
      foldToRParen operand .app fuel (.app f a)
    | "pair" => .pair <$> operand <*> operand
    | "fst" => .fst <$> operand
    | "snd" => .snd <$> operand
    | "if" => .cond <$> operand <*> operand <*> operand
    | "succ" => .succ <$> operand
    | "nat" => numeral
    | "rec" => .natRec <$> operand <*> operand <*> operand
    | head => throw ⟨.unknownForm head, span⟩
  rparen
  pure t

/-- Read a term that nests at most `fuel` deep. -/
def termWithin (fuel : Nat) : ReadM Term :=
  match fuel with
  | 0 => fellShort
  | fuel + 1 => do
    match ← next with
    | (.int n, _) => pure (.bvar n)
    | (.symbol s, _) => pure (Term.ofSymbol s)
    | (.rparen, span) => throw ⟨.unexpectedRParen, span⟩
    | (.lparen, _) =>
      let (head, span) ← symbol
      compoundTerm (termWithin fuel) fuel head span

/-- Read a term. -/
def term : ReadM Term := do termWithin (← get).budget

end Reader

/-- The term that a source text spells. -/
def Term.ofString? (source : String) : Except ReadError Term := Reader.whole Reader.term source

end SystemT
