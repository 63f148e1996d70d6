import SystemT.Token
import SystemT.Term.Basic

/-!
# Printing terms

A list names what it builds: `(lam b)`, `(pair a b)`, `(if c t e)`, `(rec b s n)` and so on.
`(app f a b)` applies `f` to `a` and the result to `b`: applications that nest on the left share
one list. A numeral other than `zero` is `(nat n)`; any other chain of successors is written out.
-/

namespace SystemT

namespace Term

/-- Tokens put inside `n` successors that are written out. -/
def withinSuccs (n : Nat) (inner : List Token → List Token) (rest : List Token) : List Token :=
  opening n (inner (closing n rest))
where
  /-- The heads of the lists. -/
  opening : Nat → List Token → List Token
    | 0, ts => ts
    | n + 1, ts => opening n (.lparen :: .symbol "succ" :: ts)
  /-- The ends of the lists. -/
  closing : Nat → List Token → List Token
    | 0, ts => ts
    | n + 1, ts => closing n (.rparen :: ts)

/-- The tokens of `chain` successors over a term, followed by `rest`. With `inSpine` the term is
the head of an application whose list is already open, so that a further application only adds its
argument. -/
def tokensThen (inSpine : Bool) (chain : Nat) (t : Term) (rest : List Token) : List Token :=
  match t with
  | succ t => t.tokensThen false (chain + 1) rest
  | zero =>
    if chain = 0 then .symbol "zero" :: rest
    else .lparen :: .symbol "nat" :: .int chain :: .rparen :: rest
  | fvar x => withinSuccs chain (.ofIdent x :: ·) rest
  | bvar i => withinSuccs chain (.int i :: ·) rest
  | tt => withinSuccs chain (.symbol "true" :: ·) rest
  | ff => withinSuccs chain (.symbol "false" :: ·) rest
  | lam b =>
    withinSuccs chain (fun r => .lparen :: .symbol "lam" :: b.tokensThen false 0 (.rparen :: r))
      rest
  | app f a =>
    if inSpine then f.tokensThen true 0 (a.tokensThen false 0 rest)
    else
      withinSuccs chain
        (fun r => .lparen :: .symbol "app" ::
          f.tokensThen true 0 (a.tokensThen false 0 (.rparen :: r)))
        rest
  | pair a b =>
    withinSuccs chain
      (fun r => .lparen :: .symbol "pair" ::
        a.tokensThen false 0 (b.tokensThen false 0 (.rparen :: r)))
      rest
  | fst p =>
    withinSuccs chain (fun r => .lparen :: .symbol "fst" :: p.tokensThen false 0 (.rparen :: r))
      rest
  | snd p =>
    withinSuccs chain (fun r => .lparen :: .symbol "snd" :: p.tokensThen false 0 (.rparen :: r))
      rest
  | cond c t e =>
    withinSuccs chain
      (fun r => .lparen :: .symbol "if" ::
        c.tokensThen false 0 (t.tokensThen false 0 (e.tokensThen false 0 (.rparen :: r))))
      rest
  | natRec b s n =>
    withinSuccs chain
      (fun r => .lparen :: .symbol "rec" ::
        b.tokensThen false 0 (s.tokensThen false 0 (n.tokensThen false 0 (.rparen :: r))))
      rest

/-- The tokens that a term is written with. -/
def tokens (t : Term) : List Token := t.tokensThen false 0 []

instance : ToString Term := ⟨fun t => Token.layout t.tokens⟩

end Term

end SystemT
