/-!
# Character classes

Blanks are the characters with the Unicode property `White_Space`, control characters those of the
Unicode category `Cc`. Digits are the ten ASCII ones.
-/

namespace SystemT

namespace Text

/-- Is the code point in one of the ranges, which are given by their first and last ones? -/
def inRanges (ranges : List (Nat × Nat)) (n : Nat) : Bool :=
  ranges.any fun (first, last) => first ≤ n && n ≤ last

/-- Has the character the property `White_Space`? -/
def isBlank (c : Char) : Bool :=
  let n := c.toNat
  (0x09 ≤ n && n ≤ 0x0D) || n = 0x20 || n = 0x85 || n = 0xA0 || n = 0x1680 ||
    (0x2000 ≤ n && n ≤ 0x200A) || n = 0x2028 || n = 0x2029 || n = 0x202F || n = 0x205F ||
    n = 0x3000

/-- Is the character in the category `Cc`? -/
def isControl (c : Char) : Bool :=
  let n := c.toNat
  n ≤ 0x1F || (0x7F ≤ n && n ≤ 0x9F)

/-! ## Blanks around a text -/

/-- Drop the blanks at the end. -/
def trimEnd (s : String) : String :=
  .ofList (s.toList.reverse.dropWhile isBlank).reverse

/-- Drop the blanks at both ends. -/
def trim (s : String) : String := trimEnd (.ofList (s.toList.dropWhile isBlank))

/-- The text before the first blank, and the text after it if there is a blank. -/
def splitAtBlank (s : String) : String × Option String :=
  let cs := s.toList
  let rest := cs.dropWhile (!isBlank ·)
  (.ofList (cs.takeWhile (!isBlank ·)), rest.tail?.map .ofList)

end Text

end SystemT
