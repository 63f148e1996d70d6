import SystemT.Ident

/-!
# Types

The simple types of System T: naturals, booleans, functions and products, with type variables that
unification resolves.
-/

namespace SystemT

/-- Simple types over type variables. -/
inductive Ty where
  | nat
  | bool
  /-- A type variable. -/
  | var (x : Ident)
  /-- Functions from `dom` to `cod`. -/
  | arrow (dom cod : Ty)
  /-- Pairs of a `fst` and a `snd`. -/
  | prod (fst snd : Ty)
deriving DecidableEq, Repr, Inhabited

namespace Ty

/-- Put `a` for the variable `x`. -/
def subst (t : Ty) (x : Ident) (a : Ty) : Ty :=
  match t with
  | nat => nat
  | bool => bool
  | var y => if y = x then a else var y
  | arrow d c => arrow (d.subst x a) (c.subst x a)
  | prod l r => prod (l.subst x a) (r.subst x a)

/-- Is the variable `x` somewhere in the type? -/
def occurs (x : Ident) : Ty → Bool
  | nat => false
  | bool => false
  | var y => y = x
  | arrow a b => a.occurs x || b.occurs x
  | prod a b => a.occurs x || b.occurs x

/-- Add the variables of a type to a set. -/
def addVars (seen : IdentSet) : Ty → IdentSet
  | nat => seen
  | bool => seen
  | var x => seen.insert x
  | arrow a b => b.addVars (a.addVars seen)
  | prod a b => b.addVars (a.addVars seen)

/-- The variables of a type. -/
def vars (t : Ty) : IdentSet := t.addVars ∅

/-- How many constructors a type is built from. -/
def size : Ty → Nat
  | nat => 1
  | bool => 1
  | var _ => 1
  | arrow a b => 1 + a.size + b.size
  | prod a b => 1 + a.size + b.size

end Ty

end SystemT
