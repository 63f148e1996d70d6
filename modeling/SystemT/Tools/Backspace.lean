import SystemT.Fault
import SystemT.Text.Bytes
import SystemT.Tools.Grapheme

/-!
# Backspaces

A backspace in a line erases the grapheme cluster before it. The size of each cluster, in bytes of
UTF-8, is remembered in a single byte. Of a cluster with 256 bytes or more a backspace thus erases
a part only, and it is a fault if that would cut a character in two.
-/

namespace SystemT

namespace Tools

open Text

/-- A line while its backspaces are at work. -/
structure Typed where
  /-- What is left of it so far, the last character first. -/
  kept : List Char := []
  /-- The remembered sizes of the clusters that are left, the last one first. -/
  sizes : List Nat := []
deriving DecidableEq, Repr, Inhabited

namespace Typed

/-- Add a cluster, or erase one if it is a backspace. -/
def type (t : Typed) (cluster : List Char) : Except Fault Typed :=
  if cluster = ['\x08'] then
    match t.sizes with
    | [] => .ok t
    | n :: sizes =>
      match splitAtByte? n t.kept with
      | some (_, kept) => .ok ⟨kept, sizes⟩
      | none => .error .cutCharacter
  else .ok ⟨cluster.reverse ++ t.kept, byteCount cluster % 256 :: t.sizes⟩

end Typed

/-- A line after its backspaces have done their work. -/
def rubOut (line : String) : Except Fault String := do
  let typed ← (graphemes line.toList).foldlM Typed.type {}
  return .ofList typed.kept.reverse

end Tools

end SystemT
