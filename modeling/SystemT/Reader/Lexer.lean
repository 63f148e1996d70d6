import SystemT.Fault
import SystemT.Text.Chars
import SystemT.Token

/-!
# The lexer

Source text is cut into tokens by longest match. Blanks, and comments from `;` to the end of the
line, separate tokens and are skipped. A run of digits is an integer below `indexLimit`; every other
run that reaches up to a blank, a parenthesis or a `;` is a symbol, unless it starts with a control
character.

Tokens and errors carry the byte range of the text that they come from.
-/

namespace SystemT

/-- A range of bytes of the source text. -/
structure Span where
  start : Nat
  stop : Nat
deriving DecidableEq, Repr, Inhabited

/-! ## Errors -/

/-- What the grammar allows at some place. -/
inductive Expectation where
  | symbol
  | rparen
  | integer
  | type
  | endOfInput
deriving DecidableEq, Repr, Inhabited

/-- How an expectation is named. -/
def Expectation.text : Expectation → String
  | symbol => "symbol"
  | rparen => ")"
  | integer => "integer"
  | type => "type"
  | endOfInput => "end of input"

namespace ReadError

/-- What can be wrong with source text. -/
inductive Cause where
  | unexpectedEnd
  | unexpectedChar (c : Char)
  | unexpectedRParen
  | expected (what : Expectation)
  /-- A list whose head names nothing. -/
  | unknownForm (head : String)
  | integerOutOfRange (digits : String)
deriving DecidableEq, Repr, Inhabited

/-- The text of a cause. -/
def Cause.message : Cause → String
  | unexpectedEnd => "unexpected end of input"
  | unexpectedChar c => "unexpected character '" ++ String.singleton c ++ "'"
  | unexpectedRParen => "unexpected ')'"
  | expected what => "expected " ++ what.text
  | unknownForm head => "unknown form '" ++ head ++ "'"
  | integerOutOfRange digits => "integer literal out of range: " ++ digits

end ReadError

/-- What is wrong with source text, and where. -/
structure ReadError where
  cause : ReadError.Cause
  span : Span
deriving DecidableEq, Repr, Inhabited

/-- The text of an error ends in the place. -/
def ReadError.message (e : ReadError) : String :=
  e.cause.message ++ " at " ++ Nat.repr e.span.start ++ ".." ++ Nat.repr e.span.stop

/-! ## Cursors -/

/-- The part of a source text that is still to be cut into tokens. -/
structure Cursor where
  /-- The characters left. -/
  rest : List Char
  /-- How many bytes come before them. -/
  offset : Nat
deriving DecidableEq, Repr, Inhabited

namespace Cursor

/-- Skip blanks and comments; `inComment` says that a comment is open. -/
def skip (inComment : Bool) (offset : Nat) : List Char → Cursor
  | [] => ⟨[], offset⟩
  | c :: cs =>
    if inComment then skip (c != '\n') (offset + c.utf8Size) cs
    else if Text.isBlank c then skip false (offset + c.utf8Size) cs
    else if c = ';' then skip true (offset + c.utf8Size) cs
    else ⟨c :: cs, offset⟩

/-- Does the character continue a symbol? -/
def inSymbol (c : Char) : Bool :=
  !Text.isBlank c && c != '(' && c != ')' && c != ';'

/-- The number that decimal digits spell. -/
def valueOf (digits : List Char) : Nat :=
  digits.foldl (fun n c => 10 * n + (c.toNat - '0'.toNat)) 0

/-- A token or a lexical error, with its place. -/
abbrev Item := Except ReadError (Token × Span)

/-- The integer that a run of digits spells, if it is small enough for an index. -/
def integer (digits : List Char) (span : Span) : Item :=
  if valueOf digits < indexLimit then .ok (.int (valueOf digits), span)
  else .error ⟨.integerOutOfRange (.ofList digits), span⟩

/-- The item that starts with `c`, where `rest` follows `c`. -/
def lex (offset : Nat) (c : Char) (rest : List Char) : Item × Cursor :=
  if c = '(' then (.ok (.lparen, single), ⟨rest, single.stop⟩)
  else if c = ')' then (.ok (.rparen, single), ⟨rest, single.stop⟩)
  else if c.isDigit then run Char.isDigit integer
  else if Text.isControl c then (.error ⟨.unexpectedChar c, single⟩, ⟨rest, single.stop⟩)
  else run inSymbol fun text span => .ok (.symbol (.ofList text), span)
where
  /-- The place of `c` alone. -/
  single : Span := ⟨offset, offset + c.utf8Size⟩
  /-- The item made of `c` and the characters after it that belong to the same class. -/
  run (belongs : Char → Bool) (make : List Char → Span → Item) : Item × Cursor :=
    let text := c :: rest.takeWhile belongs
    let stop := offset + (String.ofList text).utf8ByteSize
    (make text ⟨offset, stop⟩, ⟨rest.dropWhile belongs, stop⟩)

/-- The next item and what comes after it; there is none at the end of the text. -/
def next? (cursor : Cursor) : Option (Item × Cursor) :=
  match skip false cursor.offset cursor.rest with
  | ⟨[], _⟩ => none
  | ⟨c :: cs, offset⟩ => some (lex offset c cs)

end Cursor

end SystemT
