import SystemT.Ident

/-!
# Faults

A computation of this library ends early for one of two reasons. Its input may be wrong, which is
an *error* of the part concerned; or it may run into a bound of the machine or break one of its own
internal rules, which is a *fault*. `Failure ε` joins the two.

Bound indices, cutoffs, depths and map keys stay below `indexLimit`, counts of generated
identifiers below `counterLimit`. A fault is raised only by an addition that is really performed.
-/

namespace SystemT

/-- One more than the largest index, cutoff, depth or map key: they are numbers of 64 bits. -/
def indexLimit : Nat := 0x10000000000000000

/-- One more than the largest count of generated identifiers: it is a number of 32 bits. -/
def counterLimit : Nat := 0x100000000

/-- A bound reached or an internal rule broken, whatever the input. -/
inductive Fault where
  /-- An index, cutoff, depth or map key would reach `indexLimit`. -/
  | indexOverflow
  /-- The count of generated identifiers would reach `counterLimit`. -/
  | counterOverflow
  /-- A type variable would be bound to a type that contains it. -/
  | cyclicBinding (x : Ident)
  /-- A unification step did not lower its measure. -/
  | measureKept (before after : Nat × Nat)
  /-- Evaluation went deeper than the fuel it was given. -/
  | outOfFuel
  /-- A part of a text that would be erased ends inside a character. -/
  | cutCharacter
deriving DecidableEq, Repr, Inhabited

/-- The text of a fault. -/
def Fault.message : Fault → String
  | indexOverflow => "attempt to add with overflow"
  | counterOverflow => "attempt to add with overflow"
  | cyclicBinding x => "binding " ++ toString x ++ " would be cyclic"
  | measureKept before after =>
    "measure did not decrease: " ++ pair before ++ " -> " ++ pair after
  | outOfFuel => "evaluation ran out of fuel"
  | cutCharacter => "an erasure would cut a character in two"
where
  /-- A measure as a pair in parentheses. -/
  pair (m : Nat × Nat) : String := "(" ++ Nat.repr m.1 ++ ", " ++ Nat.repr m.2 ++ ")"

/-- Why a computation gave no result: an error of its input, or a fault. -/
inductive Failure (ε : Type) where
  | error (e : ε)
  | fault (f : Fault)
deriving DecidableEq, Repr, Inhabited

/-- Change what is said about the input; faults stay as they are. -/
def Failure.map {ε ε' : Type} (f : ε → ε') : Failure ε → Failure ε'
  | error e => error (f e)
  | fault e => fault e

end SystemT
