import SystemT.Tools.GraphemeBreak

/-!
# Grapheme clusters

A text is divided into extended grapheme clusters, as Unicode's text segmentation does it. Whether
two neighbours stay together depends on their classes, and in three cases on what came before: an
emoji sequence, a conjunct of consonants, and the number of flag halves in a row. `Place` sums up
all of this while a text is read from left to right.
-/

namespace SystemT

namespace Tools

open GraphemeBreak

/-- A place in a text, told by what stands before it. -/
structure Place where
  /-- The class of the last character. -/
  last : GraphemeBreak
  /-- Does a pictographic character stand before, with nothing but extending marks after it? -/
  pictograph : Bool := false
  /-- Is the last character a joiner, with such a pictographic character before it? -/
  joined : Bool := false
  /-- Does a consonant stand before, with nothing but marks of its conjunct after it? -/
  conjunct : Bool := false
  /-- Is a linker among these marks? -/
  linked : Bool := false
  /-- Is the number of flag halves at the end odd? -/
  halfFlag : Bool := false
deriving DecidableEq, Repr, Inhabited

namespace Place

/-- The beginning of a text, which is like a place after a control character. -/
def start : Place := { last := .control }

/-- The place after one more character. -/
def after (p : Place) (c : GraphemeBreak) : Place where
  last := c
  pictograph := c = .pictograph || p.pictograph && [.extender, .linker, .nonJoiner].contains c
  joined := p.pictograph && c = .joiner
  conjunct := c = .consonant || p.conjunct && [.extender, .linker, .joiner].contains c
  linked := p.conjunct && (c = .linker || p.linked && [.extender, .joiner].contains c)
  halfFlag := c = .regional && !p.halfFlag

/-- Does a character of this class stay together with the one before the place? -/
def joins (p : Place) (c : GraphemeBreak) : Bool :=
  match p.last, c with
  | .carriageReturn, .lineFeed => true
  | .carriageReturn, _ | .lineFeed, _ | .control, _ => false
  | _, .carriageReturn | _, .lineFeed | _, .control => false
  | .leading, .leading | .leading, .vowel => true
  | .leading, .openSyllable | .leading, .closedSyllable => true
  | .openSyllable, .vowel | .openSyllable, .trailing => true
  | .vowel, .vowel | .vowel, .trailing => true
  | .closedSyllable, .trailing | .trailing, .trailing => true
  | _, .extender | _, .linker | _, .joiner | _, .nonJoiner | _, .spacingMark => true
  | .prepended, _ => true
  | _, .consonant => p.linked
  | _, .pictograph => p.joined
  | _, .regional => p.halfFlag
  | _, _ => false

end Place

/-- Cut a text that goes on at the place `p`. The cluster before `p`, in reverse, may go on too. -/
def cut (p : Place) (cluster : List Char) : List Char → List (List Char)
  | [] => [cluster.reverse]
  | c :: cs =>
    let b := GraphemeBreak.ofChar c
    if p.joins b then cut (p.after b) (c :: cluster) cs
    else cluster.reverse :: cut (p.after b) [c] cs

/-- The grapheme clusters of a text. -/
def graphemes : List Char → List (List Char)
  | [] => []
  | c :: cs => cut (Place.start.after (.ofChar c)) [c] cs

end Tools

end SystemT
