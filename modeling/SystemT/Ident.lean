import Std.Data.ExtTreeMap
import Std.Data.ExtTreeSet

/-!
# Identifiers

An identifier labels a declared constant or a type variable. It is either a name that somebody
wrote or a number handed out by a supply. The two kinds are different constructors, so a generated
identifier never captures a written one, even where both are shown as `?3`.

Identifiers are ordered: written names first, by text, then generated ones, by number. Finite maps
and sets of identifiers list their members in this order, which is lawful (`Std.TransOrd`,
`Std.LawfulEqOrd`).
-/

namespace SystemT

/-- A written name or a generated number. -/
inductive Ident where
  /-- A name from source text. -/
  | named (name : String)
  /-- An identifier made by a name supply. -/
  | fresh (number : Nat)
deriving DecidableEq, Repr, Inhabited

namespace Ident

/-- A name shows as itself and a generated number `n` as `?n`. -/
protected def toString : Ident → String
  | named name => name
  | fresh n => "?" ++ Nat.repr n

instance : ToString Ident := ⟨Ident.toString⟩

/-- Was the identifier made by a name supply? -/
def isFresh : Ident → Bool
  | named _ => false
  | fresh _ => true

/-! ## Order -/

/-- All names stand before all generated identifiers. -/
protected def compare : Ident → Ident → Ordering
  | named a, named b => Ord.compare a b
  | named _, fresh _ => .lt
  | fresh _, named _ => .gt
  | fresh m, fresh n => Ord.compare m n

instance : Ord Ident := ⟨Ident.compare⟩

instance : Std.TransOrd Ident where
  eq_swap {a b} := by
    cases a <;> cases b
    · exact Std.OrientedOrd.eq_swap (α := String)
    · rfl
    · rfl
    · exact Std.OrientedOrd.eq_swap (α := Nat)
  isLE_trans {a b c} hab hbc := by
    cases a <;> cases b <;> cases c
    · exact Std.TransOrd.isLE_trans (α := String) hab hbc
    · rfl
    · cases hbc
    · rfl
    · cases hab
    · cases hab
    · cases hbc
    · exact Std.TransOrd.isLE_trans (α := Nat) hab hbc

instance : Std.LawfulEqOrd Ident where
  compare_self {a} := by cases a <;> exact Std.ReflOrd.compare_self
  eq_of_compare {a b} h := by
    cases a <;> cases b
    · exact congrArg named (Std.LawfulEqOrd.eq_of_compare h)
    · cases h
    · cases h
    · exact congrArg fresh (Std.LawfulEqOrd.eq_of_compare h)

end Ident

/-- A finite set of identifiers, listed in their order. -/
abbrev IdentSet := Std.ExtTreeSet Ident

/-- A finite map on identifiers, listed in their order. -/
abbrev IdentMap (β : Type) := Std.ExtTreeMap Ident β

end SystemT
