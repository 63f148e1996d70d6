import SystemT.Proofs.Reader.Tokens
import SystemT.Reader.Form

/-!
# Reading from a list of tokens

The reader cuts tokens off a text as they are needed, keeps one that it has looked at, and notes
where the token taken last ends. This is the same in two separate passes: the whole text is cut into
a list of tokens and lexical errors first (`Cursor.items`, `Tape`), and an index is then moved over
the list. The index is all that there is of a state.

The recursion is bounded by the number of items. A computation is `none` if this does not suffice,
so that to have a result is a statement of its own.

`Reader.Request` is what may be asked of a reader and of a tape. Requests are made one after the
other, also after one that failed (`Reader.answers`, `Tape.answers`).
-/

namespace SystemT

/-! ## The items of a text -/

namespace Cursor

/-- The range that an item comes from. -/
def Item.span : Item → Span
  | .ok (_, span) => span
  | .error e => e.span

/-- All items that are left, in order; the lexer goes on after an error. -/
def items (cursor : Cursor) : List Item :=
  match h : cursor.next? with
  | none => []
  | some (item, after) =>
    have _hlt : after.rest.length < cursor.rest.length := length_lt_of_next? h
    item :: after.items
termination_by cursor.rest.length

theorem items_of_next?_eq_none {cursor : Cursor} (h : cursor.next? = none) :
    cursor.items = [] := by
  rw [items]
  split
  · rfl
  · next hsome => exact nomatch h.symm.trans hsome

theorem items_of_next? {cursor after : Cursor} {item : Item}
    (h : cursor.next? = some (item, after)) : cursor.items = item :: after.items := by
  rw [items]
  split
  · next hnone => exact nomatch h.symm.trans hnone
  · next hsome =>
    obtain ⟨⟨⟩⟩ := h.symm.trans hsome
    rfl

/-- The cursor behind the next item, if there is one. -/
def past (cursor : Cursor) : Cursor :=
  match cursor.next? with
  | none => cursor
  | some (_, after) => after

/-- The cursor behind the next `n` items. -/
def behind (cursor : Cursor) : Nat → Cursor
  | 0 => cursor
  | n + 1 => (behind cursor n).past

theorem items_past (cursor : Cursor) : cursor.past.items = cursor.items.tail := by
  rw [past]
  cases h : cursor.next? with
  | none =>
    rw [items_of_next?_eq_none h]
    rfl
  | some found =>
    rw [items_of_next? h]
    rfl

theorem items_behind (cursor : Cursor) (n : Nat) :
    (cursor.behind n).items = cursor.items.drop n := by
  induction n with
  | zero => rfl
  | succ n ih => rw [behind, items_past, ih, List.tail_drop]

/-- Every item takes up at least one character. -/
theorem length_items_le (cursor : Cursor) : cursor.items.length ≤ cursor.rest.length := by
  induction hn : cursor.rest.length using Nat.strongRecOn generalizing cursor with
  | ind n ih =>
    subst hn
    cases hnext : cursor.next? with
    | none =>
      rw [items_of_next?_eq_none hnext]
      exact Nat.zero_le _
    | some found =>
      have hlt := length_lt_of_next? hnext
      rw [items_of_next? hnext]
      exact Nat.lt_of_le_of_lt (ih _ hlt found.2 rfl) hlt

/-- The item in a place of the list is the one that the cursor comes to there. -/
theorem next?_behind {cursor : Cursor} {n : Nat} {item : Item}
    (h : cursor.items[n]? = some item) :
    (cursor.behind n).next? = some (item, cursor.behind (n + 1)) := by
  have hdrop := items_behind cursor n
  obtain ⟨hn, hitem⟩ := List.getElem?_eq_some_iff.mp h
  rw [List.drop_eq_getElem_cons hn, hitem] at hdrop
  rw [behind, past]
  cases hnext : (cursor.behind n).next? with
  | none =>
    rw [items_of_next?_eq_none hnext] at hdrop
    cases hdrop
  | some found =>
    rw [items_of_next? hnext] at hdrop
    obtain ⟨rfl, -⟩ := List.cons.inj hdrop
    rfl

/-- Behind the last item there is none. -/
theorem next?_behind_length (cursor : Cursor) :
    (cursor.behind cursor.items.length).next? = none := by
  have hdrop := items_behind cursor cursor.items.length
  rw [List.drop_length] at hdrop
  cases hnext : (cursor.behind cursor.items.length).next? with
  | none => rfl
  | some found =>
    rw [items_of_next? hnext] at hdrop
    cases hdrop

end Cursor

/-! ## Tapes -/

/-- A source text that has been cut into items. -/
structure Tape where
  items : List Cursor.Item
  /-- The length of the text in bytes. -/
  size : Nat

/-- Computations that move an index over a tape and may fail. They are `none` if they come to no
end. -/
abbrev TapeM := ExceptT ReadError (StateT Nat Option)

namespace Tape

/-- Cut a source text into items. -/
def ofString (source : String) : Tape := ⟨Cursor.items ⟨source.toList, 0⟩, source.utf8ByteSize⟩

variable (tape : Tape)

/-- The text ended too early. -/
def endError : ReadError := ⟨.unexpectedEnd, ⟨tape.size, tape.size⟩⟩

/-- Where the last token in front of the index ends. -/
def lastStop : Nat → Nat
  | 0 => 0
  | i + 1 =>
    match tape.items[i]? with
    | some (.ok (_, span)) => span.stop
    | _ => lastStop i

/-- Take an item; to find none is an error. -/
def next : TapeM (Token × Span) := fun i =>
  match tape.items[i]? with
  | none => some (.error tape.endError, i)
  | some (.ok item) => some (.ok item, i + 1)
  | some (.error e) => some (.error e, i + 1)

/-- Look at the item that comes next. A token stays, a lexical error is taken. -/
def peek : TapeM (Option (Token × Span)) := fun i =>
  match tape.items[i]? with
  | none => some (.ok none, i)
  | some (.ok item) => some (.ok (some item), i)
  | some (.error e) => some (.error e, i + 1)

/-- Is no token left? -/
def atEnd : TapeM Bool := return (← tape.peek).isNone

/-- Does a closing parenthesis come next? -/
def atRParen : TapeM Bool := return (← tape.peek).any (·.1 = .rparen)

/-- Take a symbol. -/
def symbol : TapeM (String × Span) := do
  match ← tape.next with
  | (.symbol s, span) => pure (s, span)
  | (_, span) => throw ⟨.expected .symbol, span⟩

/-- Take an integer. -/
def integer : TapeM (Nat × Span) := do
  match ← tape.next with
  | (.int n, span) => pure (n, span)
  | (_, span) => throw ⟨.expected .integer, span⟩

/-- Take a closing parenthesis. -/
def rparen : TapeM Unit := do
  match ← tape.next with
  | (.rparen, _) => pure ()
  | (_, span) => throw ⟨.expected .rparen, span⟩

/-- Fail unless no token is left. -/
def finish : TapeM Unit := do
  match ← tape.peek with
  | none => pure ()
  | some (_, span) => throw ⟨.expected .endOfInput, span⟩

/-! ### Lists of elements

What goes on for as many steps as it is given fuel comes to no end where the fuel runs out. Every
step takes an item, so that more fuel than there are items makes no difference. -/

/-- No end is come to. -/
def never {α : Type} : TapeM α := fun _ => none

/-- Read further elements with `element` up to a closing parenthesis, and combine them from the
left. -/
def foldToRParen {α β : Type} (element : TapeM α) (combine : β → α → β) (fuel : Nat) (acc : β) :
    TapeM β :=
  match fuel with
  | 0 => never
  | fuel + 1 => do
    if ← tape.atRParen then pure acc
    else foldToRParen element combine fuel (combine acc (← element))

/-! ### Types -/

/-- The parts of a type that is a list, from its head on. -/
def tyParts (part : TapeM Ty) (fuel : Nat) (head : String) (span : Span) : TapeM Ty :=
  match head with
  | "->" => do
    let a ← part
    let b ← part
    let (doms, cod) ←
      tape.foldToRParen part (fun (doms, cod) t => (cod :: doms, t)) fuel ([a], b)
    pure (Ty.arrows doms cod)
  | "*" => do
    let a ← part
    let b ← part
    pure (.prod a b)
  | head => throw ⟨.unknownForm head, span⟩

/-- The rest of a type that is a list, from its head on. -/
def compoundTy (part : TapeM Ty) (fuel : Nat) (head : String) (span : Span) : TapeM Ty := do
  let t ← tape.tyParts part fuel head span
  tape.rparen
  pure t

/-- Read a type. -/
def tyWithin (fuel : Nat) : TapeM Ty :=
  match fuel with
  | 0 => never
  | fuel + 1 => do
    match ← tape.next with
    | (.symbol s, _) => pure (Ty.ofSymbol s)
    | (.int _, span) => throw ⟨.expected .type, span⟩
    | (.rparen, span) => throw ⟨.unexpectedRParen, span⟩
    | (.lparen, _) =>
      let (head, span) ← tape.symbol
      tape.compoundTy (tyWithin fuel) fuel head span

/-- Read a type. -/
def ty : TapeM Ty := tape.tyWithin (tape.items.length + 1)

/-! ### Terms -/

/-- Read the integer of `(nat k)`. -/
def numeral : TapeM Term := do
  let (n, span) ← tape.integer
  if n ≤ maxNumeral then pure (.numeral n)
  else throw ⟨.integerOutOfRange (Nat.repr n), span⟩

/-- The operands of a term that is a list, from its head on. -/
def termOperands (operand : TapeM Term) (fuel : Nat) (head : String) (span : Span) :
    TapeM Term :=
  match head with
  | "lam" => .lam <$> operand
  | "app" => do
    let f ← operand
    let a ← operand
    tape.foldToRParen operand .app fuel (.app f a)
  | "pair" => .pair <$> operand <*> operand
  | "fst" => .fst <$> operand
  | "snd" => .snd <$> operand
  | "if" => .cond <$> operand <*> operand <*> operand
  | "succ" => .succ <$> operand
  | "nat" => tape.numeral
  | "rec" => .natRec <$> operand <*> operand <*> operand
  | head => throw ⟨.unknownForm head, span⟩

/-- The rest of a term that is a list, from its head on. -/
def compoundTerm (operand : TapeM Term) (fuel : Nat) (head : String) (span : Span) :
    TapeM Term := do
  let t ← tape.termOperands operand fuel head span
  tape.rparen
  pure t

/-- Read a term. -/
def termWithin (fuel : Nat) : TapeM Term :=
  match fuel with
  | 0 => never
  | fuel + 1 => do
    match ← tape.next with
    | (.int n, _) => pure (.bvar n)
    | (.symbol s, _) => pure (Term.ofSymbol s)
    | (.rparen, span) => throw ⟨.unexpectedRParen, span⟩
    | (.lparen, _) =>
      let (head, span) ← tape.symbol
      tape.compoundTerm (termWithin fuel) fuel head span

/-- Read a term. -/
def term : TapeM Term := tape.termWithin (tape.items.length + 1)

/-! ### Forms -/

/-- The range from `start` to the end of the token taken last. -/
def spanFrom (start : Nat) : TapeM Span := fun i => some (.ok ⟨start, tape.lastStop i⟩, i)

/-- The rest of a form that is a list, from its head on. -/
def compoundForm (start : Nat) (head : String) (headSpan : Span) : TapeM Form :=
  match head with
  | "def" => do
    let (name, _) ← tape.symbol
    let t ← tape.term
    tape.rparen
    pure (.define (.named name) t (← tape.spanFrom start))
  | "axiom" => do
    let (name, _) ← tape.symbol
    let t ← tape.ty
    tape.rparen
    pure (.declare (.named name) t (← tape.spanFrom start))
  | head => do
    let t ← tape.compoundTerm (tape.termWithin tape.items.length) tape.items.length head headSpan
    pure (.expr t (← tape.spanFrom start))

/-- Read a form. -/
def form : TapeM Form := do
  match ← tape.peek with
  | none => throw tape.endError
  | some (.lparen, first) =>
    let _ ← tape.next
    let (head, headSpan) ← tape.symbol
    tape.compoundForm first.start head headSpan
  | some (_, first) =>
    let t ← tape.term
    pure (.expr t (← tape.spanFrom first.start))

/-- Read forms up to the end of the text; the latest of those read is first in `forms`. -/
def formsWithin (fuel : Nat) (forms : List Form) : TapeM (List Form) :=
  match fuel with
  | 0 => never
  | fuel + 1 => do
    if ← tape.atEnd then pure forms.reverse
    else formsWithin fuel ((← tape.form) :: forms)

/-- Read all forms that are left. -/
def program : TapeM (List Form) := tape.formsWithin (tape.items.length + 1) []

end Tape

/-! ## Requests -/

namespace Reader

/-- What may be asked of a reader. -/
inductive Request where
  | term
  | ty
  | form
  | program
  | atEnd
  | finish
deriving DecidableEq, Repr

/-- What is read for a request. -/
inductive Answer where
  | term (t : Term)
  | ty (A : Ty)
  | form (f : Form)
  | program (forms : List Form)
  | atEnd (done : Bool)
  | finished
deriving Repr

/-- Do what is asked for. -/
def answer : Request → ReadM Answer
  | .term => .term <$> term
  | .ty => .ty <$> ty
  | .form => .form <$> form
  | .program => .program <$> program
  | .atEnd => .atEnd <$> atEnd
  | .finish => (fun _ => .finished) <$> finish

/-- Do what is asked for, one request after the other, and go on after errors. -/
def answers : List Request → Reader → List (Except ReadError Answer) × Reader
  | [], r => ([], r)
  | q :: requests, r =>
    match answer q r with
    | .ok a r => Prod.map (.ok a :: ·) id (answers requests r)
    | .error e r => Prod.map (.error e :: ·) id (answers requests r)

end Reader

namespace Tape

open Reader (Request Answer)

variable (tape : Tape)

/-- Do what is asked for. -/
def answer : Request → TapeM Answer
  | .term => .term <$> tape.term
  | .ty => .ty <$> tape.ty
  | .form => .form <$> tape.form
  | .program => .program <$> tape.program
  | .atEnd => .atEnd <$> tape.atEnd
  | .finish => (fun _ => .finished) <$> tape.finish

/-- Do what is asked for, one request after the other, and go on after errors. -/
def answers : List Request → Nat → Option (List (Except ReadError Answer) × Nat)
  | [], i => some ([], i)
  | q :: requests, i => do
    let (a, i) ← tape.answer q i
    let (as, i) ← answers requests i
    pure (a :: as, i)

end Tape

end SystemT
