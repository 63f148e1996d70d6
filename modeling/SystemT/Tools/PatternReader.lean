import SystemT.Tools.Letters
import SystemT.Tools.Pattern

/-!
# Reading patterns

A reader goes through the characters of a pattern from left to right. Under the flag `x` it passes
over blanks, and over comments from `#` to the end of the line.

A pattern is part of a field in braces, so that it cannot hold a closing brace itself. Whatever is
written with braces, such as a counted repetition, is therefore never complete.
-/

namespace SystemT

namespace Tools

namespace Pattern

/-- A place in a pattern. -/
structure Place where
  rest : List Char
  /-- Are blanks and comments passed over? -/
  verbose : Bool := false
  /-- The names of the groups so far. -/
  names : List (List Char) := []

/-- Readers of parts of a pattern. -/
abbrev Reader := StateT Place Option

namespace Reader

/-! ## Characters -/

/-- The next character, which stays unread. -/
def peek : Reader (Option Char) := return (← get).rest.head?

/-- Read a character. -/
def next : Reader Char := fun p =>
  match p.rest with
  | [] => none
  | c :: rest => some (c, { p with rest })

/-- Read the given characters if they come next. -/
def nextIf (cs : List Char) : Reader Bool := fun p =>
  if cs.isPrefixOf p.rest then some (true, { p with rest := p.rest.drop cs.length })
  else some (false, p)

/-- Pass over blanks and comments; `inComment` says that a comment is open. -/
def skipVerbose (inComment : Bool) : List Char → List Char
  | [] => []
  | c :: cs =>
    if inComment then skipVerbose (c != '\n') cs
    else if Text.isBlank c then skipVerbose false cs
    else if c = '#' then skipVerbose true cs
    else c :: cs

/-- Pass over blanks and comments if the flags say so. -/
def space : Reader Unit :=
  modify fun p => if p.verbose then { p with rest := skipVerbose false p.rest } else p

/-- The next character after blanks and comments; there must be one. -/
def spaceThenPeek : Reader Char := do
  space
  peek >>= (·)

/-- The first character that is no blank and does not open a comment. -/
def firstVerbose (inComment : Bool) : List Char → Option Char
  | [] => none
  | c :: cs =>
    if Text.isBlank c then firstVerbose inComment cs
    else if !inComment && c = '#' then firstVerbose true cs
    else some c

/-- The character after the next one. -/
def peekSecond : Reader (Option Char) := do
  let p ← get
  return if p.verbose then firstVerbose false p.rest.tail else p.rest.tail.head?

/-! ## Escapes -/

/-- Characters with a meaning of their own in patterns. -/
def isMeta (c : Char) : Bool :=
  ['\\', '.', '+', '*', '?', '(', ')', '|', '[', ']', '\x7b', '\x7d', '^', '$', '#', '&', '-',
    '~'].contains c

/-- Characters that stand for themselves after a backslash. -/
def isEscapable (c : Char) : Bool :=
  isMeta c || c.toNat ≤ 0x7F && !c.isAlphanum && c != '<' && c != '>'

/-- The control character that a letter stands for after a backslash. -/
def control? : Char → Option Char
  | 'a' => some '\x07'
  | 't' => some '\t'
  | 'n' => some '\n'
  | 'v' => some '\x0b'
  | 'f' => some '\x0c'
  | 'r' => some '\r'
  | _ => none

/-- The value of a hexadecimal digit. -/
def hexValue? (c : Char) : Option Nat :=
  if c.isDigit then some (c.toNat - '0'.toNat)
  else if 'a' ≤ c && c ≤ 'f' then some (c.toNat - 'a'.toNat + 10)
  else if 'A' ≤ c && c ≤ 'F' then some (c.toNat - 'A'.toNat + 10)
  else none

/-- Read the given number of hexadecimal digits, of which `value` was read before. -/
def hexDigits (value : Nat) : Nat → Reader Nat
  | 0 => pure value
  | n + 1 => do
    space
    let digit ← hexValue? (← next)
    hexDigits (16 * value + digit) n

/-- Read the code point of a character. -/
def hexChar (digits : Nat) : Reader Char := do
  let value ← hexDigits 0 digits
  space
  if value.isValidChar then pure (.ofNat value) else failure

/-- Read the rest of a class by a Unicode property, of one letter. -/
def property : Reader Pattern := do
  space
  let c ← next
  space
  if c = '\\' || c = '\x7b' then failure else pure .property

/-- Read what follows a backslash. -/
def escape : Reader Pattern := do
  let c ← next
  match c with
  | 'x' => return .char (← hexChar 2) true
  | 'u' => return .char (← hexChar 4) false
  | 'U' => return .char (← hexChar 8) false
  | 'p' | 'P' => property
  | 'd' | 's' | 'w' => return .letters false
  | 'D' | 'S' | 'W' => return .letters true
  | 'A' | 'z' => return .anchor
  | 'b' | 'B' | '<' | '>' => return .boundary
  | c =>
    if isEscapable c then return .char c false
    else return .char (← control? c) false

/-! ## Classes in brackets -/

/-- The names of classes. -/
def classNames : List String :=
  ["alnum", "alpha", "ascii", "blank", "cntrl", "digit", "graph", "lower", "print", "punct",
    "space", "upper", "word", "xdigit"]

/-- A named class at the start of a text, and what follows it. -/
def namedClass? : List Char → Option (ClassPart × List Char)
  | '[' :: ':' :: cs =>
    let negated := cs.head? = some '^'
    let cs := if negated then cs.tail else cs
    match cs.dropWhile (· != ':') with
    | ':' :: ']' :: rest =>
      if classNames.contains (.ofList (cs.takeWhile (· != ':'))) then some (.named negated, rest)
      else none
    | _ => none
  | _ => none

/-- Read one character of a class, or what stands for a class in it. -/
def classAtom : Reader ClassPart := do
  match ← next with
  | '\\' =>
    match ← escape with
    | .char c _ => return .chars c c
    | .letters negated => return .letters negated
    | .property => return .property
    | _ => failure
  | c => return .chars c c

/-- Read a range of characters, or one character or class. -/
def classRange : Reader ClassPart := do
  let first ← classAtom
  if (← spaceThenPeek) != '-' || [some ']', some '-'].contains (← peekSecond) then return first
  let _ ← next
  let _ ← spaceThenPeek
  match first, ← classAtom with
  | .chars first _, .chars _ last => if first ≤ last then return .chars first last else failure
  | _, _ => failure

/-- Read hyphens at the start of a class, which stand for themselves. -/
def hyphens (fuel : Nat) (parts : List ClassPart) : Reader (List ClassPart) :=
  match fuel with
  | 0 => failure
  | fuel + 1 => do
    if (← spaceThenPeek) != '-' then return parts
    let _ ← next
    hyphens fuel (.chars '-' '-' :: parts)

/-- Read the start of a class after its bracket: whether it is negated, and what stands for itself
only there. -/
def classStart (fuel : Nat) : Reader (Bool × List ClassPart) := do
  let negated := (← spaceThenPeek) = '^'
  if negated then let _ ← next
  let parts ← hyphens fuel []
  if parts.isEmpty && (← peek) = some ']' then
    let _ ← next
    let _ ← spaceThenPeek
    return (negated, [.chars ']' ']'])
  return (negated, parts)

/-- Read the rest of a class in brackets. Of its operands, `operands` and, in part, `parts` were
read before, both in reverse. -/
def classRest (fuel : Nat) (negated : Bool) (operands parts : List ClassPart) : Reader ClassPart :=
  match fuel with
  | 0 => failure
  | fuel + 1 => do
    let operand := ClassPart.ofList parts.reverse
    match ← spaceThenPeek with
    | ']' =>
      let _ ← next
      match (operand :: operands).reverse with
      | [] => failure
      | first :: others => return .bracket negated first others
    | '[' =>
      match namedClass? (← get).rest with
      | some (named, rest) =>
        modify ({ · with rest })
        classRest fuel negated operands (named :: parts)
      | none =>
        let _ ← next
        let (innerNegated, innerParts) ← classStart fuel
        let inner ← classRest fuel innerNegated [] innerParts
        classRest fuel negated operands (inner :: parts)
    | _ =>
      if (← nextIf ['&', '&']) || (← nextIf ['-', '-']) || (← nextIf ['~', '~']) then
        classRest fuel negated (operand :: operands) []
      else
        let part ← classRange
        classRest fuel negated operands (part :: parts)

/-- Read a class after its bracket. -/
def charClass (fuel : Nat) : Reader Pattern := do
  let (negated, parts) ← classStart fuel
  return .bracket (← classRest fuel negated [] parts)

/-! ## Groups -/

/-- Read the letters of flags up to `:` or `)`. Those after a hyphen are switched off; `change` was
read before, in reverse. -/
def flagLetters (fuel : Nat) (on : Bool) (change : FlagChange) : Reader FlagChange :=
  match fuel with
  | 0 => failure
  | fuel + 1 => do
    match ← peek with
    | none => failure
    | some ':' | some ')' =>
      if on || change.any (!·.2) then return change.reverse else failure
    | some '-' =>
      let _ ← next
      if on then flagLetters fuel false change else failure
    | some c =>
      let _ ← next
      if ['i', 'm', 's', 'U', 'u', 'R', 'x'].contains c && (change.lookup c).isNone then
        flagLetters fuel on ((c, on) :: change)
      else failure

/-- May the name of a group begin with this character, or, unless it is the first, go on with it? -/
def isNameChar (isFirst : Bool) (c : Char) : Bool :=
  if isFirst then c = '_' || isAlphabetic c
  else ['_', '.', '[', ']'].contains c || isAlphanumeric c

/-- Read the name of a group, up to `>`. No two groups have the same name. -/
def groupName : Reader Unit := do
  let p ← get
  let name := p.rest.takeWhile (· != '>')
  match p.rest.dropWhile (· != '>'), name with
  | '>' :: rest, first :: more =>
    if isNameChar true first && more.all (isNameChar false) && !p.names.contains name then
      set { p with rest, names := name :: p.names }
    else failure
  | _, _ => failure

/-- The start of a group after its parenthesis: its flags, and whether they stand alone, which makes
them flags for what follows. -/
def groupStart (fuel : Nat) : Reader (FlagChange × Bool) := do
  space
  if (← nextIf ['?', 'P', '<']) || (← nextIf ['?', '<']) then
    groupName
    return ([], false)
  else if ← nextIf ['?'] then
    let change ← flagLetters fuel true []
    let alone := (← next) = ')'
    if alone && change.isEmpty then failure else return (change, alone)
  else return ([], false)

/-- Set whether blanks are passed over. -/
def setVerbose (verbose : Bool) : Reader Unit := modify ({ · with verbose })

/-! ## Patterns -/

mutual

/-- Read a sequence, of which `items` were read before, in reverse. -/
def sequence (fuel : Nat) (items : List Pattern) : Reader Pattern :=
  match fuel with
  | 0 => failure
  | fuel + 1 => do
    space
    match ← peek with
    | none | some ')' | some '|' => return Pattern.ofList items.reverse
    | some c =>
      let _ ← next
      match c with
      | '(' =>
        let verbose := (← get).verbose
        let (change, alone) ← groupStart fuel
        setVerbose ((change.lookup 'x').getD verbose)
        if alone then sequence fuel (.flags change :: items)
        else
          let inner ← choice fuel []
          if (← next) != ')' then failure
          setVerbose verbose
          sequence fuel (.group change inner :: items)
      | '[' =>
        let c ← charClass fuel
        sequence fuel (c :: items)
      | '?' | '*' | '+' =>
        match items with
        | [] | .flags _ :: _ => failure
        | p :: items =>
          let _ ← nextIf ['?']
          sequence fuel (.repeated p :: items)
      | '\x7b' => failure
      | '\\' =>
        let p ← escape
        sequence fuel (p :: items)
      | '.' => sequence fuel (.dot :: items)
      | '^' | '$' => sequence fuel (.anchor :: items)
      | c => sequence fuel (.char c false :: items)

/-- Read a choice, of which `choices` were read before, in reverse. -/
def choice (fuel : Nat) (choices : List Pattern) : Reader Pattern :=
  match fuel with
  | 0 => failure
  | fuel + 1 => do
    let choices := (← sequence fuel []) :: choices
    if ← nextIf ['|'] then choice fuel choices
    else return Pattern.ofChoices choices.reverse

end

end Reader

/-- The pattern that a text stands for. Reading a character takes at most two calls. -/
def ofChars? (cs : List Char) : Option Pattern :=
  match (Reader.choice (2 * cs.length + 3) []).run { rest := cs } with
  | some (p, ⟨[], _, _⟩) => some p
  | _ => none

end Pattern

end Tools

end SystemT
