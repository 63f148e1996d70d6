import SystemT.Ident

/-!
# Tokens

Types and terms are written as s-expressions: parentheses, symbols and decimal integers. Printers
produce lists of tokens and leave spacing to `Token.layout`; the reader turns text into the same
tokens, so what is written and what is read meet here.
-/

namespace SystemT

/-- The smallest pieces of source text that mean something. -/
inductive Token where
  | lparen
  | rparen
  | symbol (text : String)
  | int (value : Nat)
deriving DecidableEq, Repr, Inhabited

namespace Token

/-- How a token is spelled; an integer is spelled without leading zeros. -/
def text : Token → String
  | lparen => "("
  | rparen => ")"
  | symbol s => s
  | int n => Nat.repr n

/-- The symbol that spells an identifier. -/
def ofIdent (x : Ident) : Token := symbol (toString x)

/-- Append tokens to `out`: a space goes between two tokens unless the first opens a list or the
second closes one. `glued` says that no space may come next. -/
def write (out : String) (glued : Bool) : List Token → String
  | [] => out
  | rparen :: rest => write (out.push ')') false rest
  | lparen :: rest => write ((if glued then out else out.push ' ').push '(') true rest
  | t :: rest => write ((if glued then out else out.push ' ') ++ t.text) false rest

/-- The text of a list of tokens on one line. -/
def layout (ts : List Token) : String := write "" true ts

end Token

end SystemT
