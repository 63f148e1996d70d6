import SystemT.Ident

/-!
# Terms

The terms of System T. Bound variables are de Bruijn indices and declared constants are
identifiers: indices are renumbered when a binder disappears, names are only looked up.

Numerals are unary, so that chains of a million successors are ordinary. Whatever walks down such
a chain does so in a loop: `asNumeral?`, `splitSuccs` and `succs` here, the traversals of
`SystemT.Term.Traversal` elsewhere.

A term may share its parts so much that no walk over it ever ends. Two properties of its shape are
therefore kept in each node: `scope`, which tells how many binders it needs around it, and
`isValue`. With them a closed value is recognised at once, whatever its size (`isClosedValue`).
-/

namespace SystemT

/-- Terms over declared constants. -/
inductive Term where
  /-- A declared constant. -/
  | fvar (x : Ident)
  /-- The variable of the binder that `index` other binders lie inside of. -/
  | bvar (index : Nat)
  /-- A function. -/
  | lam (body : Term)
  /-- A function applied to an argument. -/
  | app (fn arg : Term)
  | pair (fst snd : Term)
  | fst (p : Term)
  | snd (p : Term)
  | tt
  | ff
  /-- The `thenBranch` if `c` is true and the `elseBranch` if it is false. -/
  | cond (c thenBranch elseBranch : Term)
  | zero
  | succ (t : Term)
  /-- Primitive recursion: `base` at zero, `step k r` at the successor of `k`, where `r` is the
  result at `k`. -/
  | natRec (base step scrutinee : Term)
with
  /-- The least number of binders around a term to which all of its escaping indices belong. -/
  @[computed_field] scope : Term → Nat
    | .fvar _ => 0
    | .bvar i => i + 1
    | .lam b => b.scope - 1
    | .app f a => max f.scope a.scope
    | .pair a b => max a.scope b.scope
    | .fst p => p.scope
    | .snd p => p.scope
    | .tt => 0
    | .ff => 0
    | .cond c t e => max c.scope (max t.scope e.scope)
    | .zero => 0
    | .succ t => t.scope
    | .natRec b s n => max b.scope (max s.scope n.scope)
  /-- Is the term an abstraction, a truth value, zero, or made of such by successors and pairs? -/
  @[computed_field] isValue : Term → Bool
    | .fvar _ => false
    | .bvar _ => false
    | .lam _ => true
    | .app _ _ => false
    | .pair a b => a.isValue && b.isValue
    | .fst _ => false
    | .snd _ => false
    | .tt => true
    | .ff => true
    | .cond _ _ _ => false
    | .zero => true
    | .succ t => t.isValue
    | .natRec _ _ _ => false
deriving BEq, ReflBEq, LawfulBEq, Repr, Inhabited

namespace Term

instance : DecidableEq Term := fun a b => decidable_of_iff (a == b) beq_iff_eq

/-- Is the term a value that needs no binder around it? -/
def isClosedValue (t : Term) : Bool := t.isValue && t.scope == 0

/-! ## Chains of successors -/

/-- The chain of `n` successors over `t`. -/
def succs : Nat → Term → Term
  | 0, t => t
  | n + 1, t => succs n (succ t)

/-- The numeral `n`. -/
def numeral (n : Nat) : Term := succs n zero

/-- The number that a numeral stands for. -/
def asNumeral? (t : Term) : Option Nat := count 0 t
where
  /-- There are `n` successors above. -/
  count (n : Nat) : Term → Option Nat
    | zero => some n
    | succ t => count (n + 1) t
    | _ => none

/-- The first term below a chain of successors that is not a successor itself, and the length of
the chain. -/
def splitSuccs (t : Term) : Term × Nat := split 0 t
where
  /-- There are `n` successors above. -/
  split (n : Nat) : Term → Term × Nat
    | succ t => split (n + 1) t
    | t => (t, n)

@[simp] theorem succs_zero (t : Term) : succs 0 t = t := rfl

theorem succs_succ (n : Nat) (t : Term) : succs (n + 1) t = succ (succs n t) := by
  induction n generalizing t with
  | zero => rfl
  | succ n ih => exact ih (succ t)

end Term

end SystemT
