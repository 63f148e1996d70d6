/-!
# Patterns

The regular expressions with which a log filter compares the values of fields. Nothing is ever
matched against them here; what counts is which of them are supported (`Pattern.isSupported`).

A pattern is read in one of two modes, which the flag `u` switches. In Unicode mode, which is the
one at the start, whatever needs a table of Unicode properties is not supported: classes of letters
such as `\w`, boundaries of words, and ignoring case. In byte mode these are about ASCII alone, and
what is not supported is whatever could match a part of a character: classes that are negated and
the dot.
-/

namespace SystemT

namespace Tools

/-- Flags that a pattern switches, by their letters, on or off. -/
abbrev FlagChange := List (Char × Bool)

/-- A part of a class in brackets. -/
inductive ClassPart where
  /-- The characters from `first` to `last`. -/
  | chars (first last : Char)
  /-- A named class such as `[:alpha:]`. -/
  | named (negated : Bool)
  /-- A class such as `\d`. -/
  | letters (negated : Bool)
  /-- A class by a Unicode property. -/
  | property
  | union (parts : List ClassPart)
  /-- A class in brackets of its own: `first`, with each of `others` joined to what stands before
  it by one of the operators `&&`, `--` and `~~`. -/
  | bracket (negated : Bool) (first : ClassPart) (others : List ClassPart)
deriving Repr, Inhabited

/-- Regular expressions. -/
inductive Pattern where
  /-- One character; `byte` tells that it is written with two hexadecimal digits. -/
  | char (c : Char) (byte : Bool)
  | dot
  /-- The start or the end of a line or of the text. -/
  | anchor
  /-- A boundary of a word, or the lack of one. -/
  | boundary
  /-- A class such as `\d`. -/
  | letters (negated : Bool)
  /-- A class by a Unicode property. -/
  | property
  /-- A class in brackets. -/
  | bracket (c : ClassPart)
  /-- Flags for what follows in the same group. -/
  | flags (change : FlagChange)
  | repeated (p : Pattern)
  /-- A group, with flags for what is in it. -/
  | group (change : FlagChange) (p : Pattern)
  | sequence (ps : List Pattern)
  | choice (ps : List Pattern)
deriving Repr, Inhabited

namespace ClassPart

/-- The union of some parts; a single one stands for itself. -/
def ofList : List ClassPart → ClassPart
  | [p] => p
  | ps => union ps

mutual

/-- How deeply parts are nested in a part. -/
def height : ClassPart → Nat
  | chars _ _ => 0
  | named _ => 0
  | letters _ => 0
  | property => 0
  | union [] => 0
  | union ps => heights ps + 1
  | bracket _ first others => operatorHeight first.height others + 1

/-- The greatest height of some parts. -/
def heights : List ClassPart → Nat
  | [] => 0
  | p :: ps => max p.height (heights ps)

/-- The height of what operators join, where `h` is the height of what stands before `others`.
Operators associate to the left. -/
def operatorHeight (h : Nat) : List ClassPart → Nat
  | [] => h
  | p :: ps => operatorHeight (max h p.height + 1) ps

end

mutual

/-- Is the part of a class supported in byte mode? -/
def isSupportedInBytes : ClassPart → Bool
  | chars _ last => last.toNat ≤ 0x7F
  | named negated => !negated
  | letters negated => !negated
  | property => false
  | union ps => areSupportedInBytes ps
  | bracket negated first others =>
    !negated && first.isSupportedInBytes && areSupportedInBytes others

def areSupportedInBytes : List ClassPart → Bool
  | [] => true
  | p :: ps => p.isSupportedInBytes && areSupportedInBytes ps

end

mutual

/-- Is the part of a class supported in Unicode mode? -/
def isSupportedInUnicode : ClassPart → Bool
  | chars _ _ => true
  | named _ => true
  | letters _ => false
  | property => false
  | union ps => areSupportedInUnicode ps
  | bracket _ first others => first.isSupportedInUnicode && areSupportedInUnicode others

def areSupportedInUnicode : List ClassPart → Bool
  | [] => true
  | p :: ps => p.isSupportedInUnicode && areSupportedInUnicode ps

end

end ClassPart

namespace Pattern

/-- The sequence of some patterns; a single one stands for itself. -/
def ofList : List Pattern → Pattern
  | [p] => p
  | ps => sequence ps

/-- The choice between some patterns; a single one stands for itself. -/
def ofChoices : List Pattern → Pattern
  | [p] => p
  | ps => choice ps

mutual

/-- How deeply patterns are nested in a pattern. -/
def height : Pattern → Nat
  | char _ _ => 0
  | dot => 0
  | anchor => 0
  | boundary => 0
  | letters _ => 0
  | property => 0
  | flags _ => 0
  | bracket c => c.height
  | repeated p => p.height + 1
  | group _ p => p.height + 1
  | sequence [] => 0
  | sequence ps => heights ps + 1
  | choice ps => heights ps + 1

/-- The greatest height of some patterns. -/
def heights : List Pattern → Nat
  | [] => 0
  | p :: ps => max p.height (heights ps)

end

/-- The flags that matter for what is supported. -/
structure Flags where
  unicode : Bool := true
  ignoreCase : Bool := false
deriving DecidableEq, Repr, Inhabited

/-- Switch flags. -/
def Flags.switch (f : Flags) (change : FlagChange) : Flags where
  unicode := (change.lookup 'u').getD f.unicode
  ignoreCase := (change.lookup 'i').getD f.ignoreCase

/-- Does ignoring case need a table of Unicode properties? -/
def Flags.foldsUnicode (f : Flags) : Bool := f.unicode && f.ignoreCase

mutual

/-- The flags after a pattern that is read with the flags `f`, if the pattern is supported. -/
def after? (f : Flags) : Pattern → Option Flags
  | char c byte => if f.foldsUnicode || !f.unicode && byte && 0x7F < c.toNat then none else some f
  | dot => if f.unicode then some f else none
  | anchor => some f
  | boundary => if f.unicode then none else some f
  | letters negated => if f.unicode || negated then none else some f
  | property => none
  | bracket c =>
    if f.unicode then if !f.ignoreCase && c.isSupportedInUnicode then some f else none
    else if c.isSupportedInBytes then some f else none
  | flags change => some (f.switch change)
  | repeated p => p.after? f
  | group change p => (p.after? (f.switch change)).map fun _ => f
  | sequence ps => afterAll? f ps
  | choice ps => afterAll? f ps

/-- The flags after some patterns, if all of them are supported. -/
def afterAll? (f : Flags) : List Pattern → Option Flags
  | [] => some f
  | p :: ps => (p.after? f).bind fun f => afterAll? f ps

end

/-- The greatest height of a pattern that is supported. -/
def heightLimit : Nat := 250

/-- Is the pattern supported? -/
def isSupported (p : Pattern) : Bool := p.height ≤ heightLimit && (p.after? {}).isSome

end Pattern

end Tools

end SystemT
