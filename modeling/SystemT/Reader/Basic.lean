import SystemT.Reader.Lexer

/-!
# Readers

A reader takes tokens from a source text one by one, cutting them off the text as they are needed
and looking at most one token ahead. It keeps its place when it fails: tokens taken so far are
consumed, a token that was only looked at is not, and text that is no token is consumed even when
it was only looked at.
-/

namespace SystemT

/-- A place in a source text. -/
structure Reader where
  /-- The text that no token was cut from yet. -/
  cursor : Cursor
  /-- The length of the whole text in bytes. -/
  size : Nat
  /-- A token that was looked at and not taken. -/
  peeked : Option (Token × Span) := none
  /-- Where the token taken last ends. -/
  lastStop : Nat := 0
deriving DecidableEq, Repr, Inhabited

/-- Computations that take tokens and may fail. -/
abbrev ReadM := EStateM ReadError Reader

instance instDecidableEqResult {ε σ α : Type} [DecidableEq ε] [DecidableEq σ] [DecidableEq α] :
    DecidableEq (EStateM.Result ε σ α)
  | .ok a s, .ok b t => decidable_of_iff (a = b ∧ s = t) (by simp)
  | .error e s, .error f t => decidable_of_iff (e = f ∧ s = t) (by simp)
  | .ok .., .error .. => isFalse nofun
  | .error .., .ok .. => isFalse nofun

namespace Reader

/-- The start of a source text. -/
def ofString (source : String) : Reader where
  cursor := ⟨source.toList, 0⟩
  size := source.utf8ByteSize

/-- The text ended too early. -/
def endError (r : Reader) : ReadError := ⟨.unexpectedEnd, ⟨r.size, r.size⟩⟩

/-- More than the number of tokens that are left. -/
def budget (r : Reader) : Nat := r.size - r.cursor.offset + 2

/-! ## Tokens -/

/-- Take a token; to find none is an error. -/
def next : ReadM (Token × Span) := fun r =>
  match r.peeked with
  | some item => .ok item { r with peeked := none, lastStop := item.2.stop }
  | none =>
    match r.cursor.next? with
    | none => .error r.endError r
    | some (.ok item, cursor) => .ok item { r with cursor, lastStop := item.2.stop }
    | some (.error e, cursor) => .error e { r with cursor }

/-- Look at the token that comes next; there is none at the end of the text. -/
def peek : ReadM (Option (Token × Span)) := fun r =>
  match r.peeked with
  | some item => .ok (some item) r
  | none =>
    match r.cursor.next? with
    | none => .ok none r
    | some (.ok item, cursor) => .ok (some item) { r with cursor, peeked := some item }
    | some (.error e, cursor) => .error e { r with cursor }

/-- Is no token left? -/
def atEnd : ReadM Bool := return (← peek).isNone

/-- Does a closing parenthesis come next? -/
def atRParen : ReadM Bool := return (← peek).any (·.1 = .rparen)

/-- Fail: something else was expected at `span`. -/
def expected {α : Type} (what : Expectation) (span : Span) : ReadM α :=
  throw ⟨.expected what, span⟩

/-- Take a symbol. -/
def symbol : ReadM (String × Span) := do
  match ← next with
  | (.symbol s, span) => pure (s, span)
  | (_, span) => expected .symbol span

/-- Take an integer. -/
def integer : ReadM (Nat × Span) := do
  match ← next with
  | (.int n, span) => pure (n, span)
  | (_, span) => expected .integer span

/-- Take a closing parenthesis. -/
def rparen : ReadM Unit := do
  match ← next with
  | (.rparen, _) => pure ()
  | (_, span) => expected .rparen span

/-- Fail unless no token is left. -/
def finish : ReadM Unit := do
  match ← peek with
  | none => pure ()
  | some (_, span) => expected .endOfInput span

/-- The text ended although tokens were still expected. -/
def fellShort {α : Type} : ReadM α := do
  throw (← get).endError

/-- Read further elements with `element` up to a closing parenthesis, at most `fuel` of them, and
combine them from the left. -/
def foldToRParen {α β : Type} (element : ReadM α) (combine : β → α → β) (fuel : Nat) (acc : β) :
    ReadM β :=
  match fuel with
  | 0 => fellShort
  | fuel + 1 => do
    if ← atRParen then pure acc
    else foldToRParen element combine fuel (combine acc (← element))

/-- What a whole source text is read as: `read` has to use up all tokens. -/
def whole {α : Type} (read : ReadM α) (source : String) : Except ReadError α :=
  match (do let a ← read; finish; pure a : ReadM α) (ofString source) with
  | .ok a _ => .ok a
  | .error e _ => .error e

/-! ## Reading one thing after the other -/

section

variable {α β : Type} {act : ReadM α} {rest : α → ReadM β} {r s : Reader}

theorem bind_of_ok {a : α} (h : act r = .ok a s) : (act >>= rest) r = rest a s := by
  show EStateM.bind act rest r = _
  rw [EStateM.bind, h]

theorem bind_of_error {e : ReadError} (h : act r = .error e s) :
    (act >>= rest) r = .error e s := by
  show EStateM.bind act rest r = _
  rw [EStateM.bind, h]

theorem bind_eq_ok {b : β} {t : Reader} (h : (act >>= rest) r = .ok b t) :
    ∃ a s, act r = .ok a s ∧ rest a s = .ok b t := by
  cases hact : act r with
  | ok a s =>
    rw [bind_of_ok hact] at h
    exact ⟨a, s, rfl, h⟩
  | error e s =>
    rw [bind_of_error hact] at h
    cases h

theorem bind_eq_error {e : ReadError} {t : Reader} (h : (act >>= rest) r = .error e t) :
    act r = .error e t ∨ ∃ a s, act r = .ok a s ∧ rest a s = .error e t := by
  cases hact : act r with
  | ok a s =>
    rw [bind_of_ok hact] at h
    exact .inr ⟨a, s, rfl, h⟩
  | error e' s =>
    rw [bind_of_error hact] at h
    cases h
    exact .inl rfl

end

end Reader

end SystemT
