import SystemT.Token
import SystemT.Ty.Basic

/-!
# Printing types

`(-> a b … z)` is the type of functions that take `a`, `b`, … in turn and give `z`: arrows that
nest to the right share one pair of parentheses. A product is `(* a b)`.
-/

namespace SystemT

namespace Ty

/-- The tokens of a type, followed by `rest`. With `inArrow` the type is the last part of an arrow
whose list is already open, so that a further arrow only adds its parts. -/
def tokensThen (inArrow : Bool) (t : Ty) (rest : List Token) : List Token :=
  match t with
  | nat => .symbol "nat" :: rest
  | bool => .symbol "bool" :: rest
  | var x => .ofIdent x :: rest
  | arrow a b =>
    if inArrow then a.tokensThen false (b.tokensThen true rest)
    else .lparen :: .symbol "->" :: a.tokensThen false (b.tokensThen true (.rparen :: rest))
  | prod a b =>
    .lparen :: .symbol "*" :: a.tokensThen false (b.tokensThen false (.rparen :: rest))

/-- The tokens that a type is written with. -/
def tokens (t : Ty) : List Token := t.tokensThen false []

instance : ToString Ty := ⟨fun t => Token.layout t.tokens⟩

end Ty

end SystemT
