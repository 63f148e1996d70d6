import SystemT.Context
import SystemT.NameSupply
import SystemT.Term.Basic
import SystemT.Unification

/-!
# Type inference

Types are reconstructed by recursion on the term. Each rule hands out fresh type variables for what
it does not know yet and has the unifier solve the equations it needs, so that the answer is a type
together with a substitution for the type variables of the context. Declared constants are
monomorphic: the type variables in their types are rigid.

A `Checker` keeps its supply of fresh variables from one call to the next, also when a call fails.
-/

namespace SystemT

/-- Why a term has no type. -/
inductive TypeError where
  /-- The variable would have to equal a type that properly contains it. -/
  | occursCheck (x : Ident) (t : Ty)
  | mismatch (left right : Ty)
  /-- A constant that is not declared. -/
  | undeclared (x : Ident)
  /-- An index with no binder, below `depth` binders. -/
  | outOfRange (index depth : Nat)
deriving DecidableEq, Repr, Inhabited

namespace TypeError

/-- A type error that comes from unification. -/
def ofUnify : UnifyError → TypeError
  | .occursCheck x t => occursCheck x t
  | .mismatch t u => mismatch t u

/-- The text of a type error. -/
def message : TypeError → String
  | occursCheck x t => "occurs check: " ++ toString x ++ " occurs in " ++ toString t
  | mismatch t u => "type mismatch: cannot unify " ++ toString t ++ " with " ++ toString u
  | undeclared x => "unbound free identifier: " ++ toString x
  | outOfRange i depth =>
    "bound index " ++ Nat.repr i ++ " out of range at depth " ++ Nat.repr depth

end TypeError

/-- An inferred type, and the substitution under which the term has it. -/
structure Inferred where
  subst : Subst
  ty : Ty

namespace Inferred

/-- A type found without solving anything. -/
def plain (t : Ty) : Inferred := ⟨∅, t⟩

end Inferred

/-- Computations that hand out fresh type variables and may fail. -/
abbrev InferM := EStateM (Failure TypeError) NameSupply

namespace InferM

/-- A computation on the supply alone. -/
def ofSupply {α : Type} (act : EStateM Fault NameSupply α) : InferM α :=
  EStateM.adaptExcept Failure.fault act

/-- A fresh type variable. -/
def freshVar : InferM Ty := ofSupply (.var <$> NameSupply.fresh)

/-- Make two types equal. -/
def equate (rigid : IdentSet) (t u : Ty) : InferM Subst :=
  match SystemT.unify [(t, u)] rigid with
  | .ok s => pure s
  | .error e => throw (e.map .ofUnify)

end InferM

open InferM in
/-- The type of a term in `Γ`, where the variables in `rigid` are not to be bound. -/
def inferTerm (rigid : IdentSet) (Γ : Context) (t : Term) : InferM Inferred :=
  match t with
  | .bvar i =>
    match Γ.get? i with
    | some ty => pure (.plain ty)
    | none => throw (.error (.outOfRange i Γ.depth))
  | .fvar x =>
    match Γ.lookup? x with
    | some ty => pure (.plain ty)
    | none => throw (.error (.undeclared x))
  | .lam b => do
    let param ← freshVar
    let ⟨s, bodyTy⟩ ← inferTerm rigid (Γ.push param) b
    pure ⟨s, .arrow (s.apply param) bodyTy⟩
  | .app f a => do
    let ⟨s₁, fnTy⟩ ← inferTerm rigid Γ f
    let ⟨s₂, argTy⟩ ← inferTerm rigid (Γ.apply s₁) a
    let result ← freshVar
    let s₃ ← equate rigid (s₂.apply fnTy) (.arrow argTy result)
    pure ⟨(s₁.compose s₂).compose s₃, s₃.apply result⟩
  | .pair a b => do
    let ⟨s₁, fstTy⟩ ← inferTerm rigid Γ a
    let ⟨s₂, sndTy⟩ ← inferTerm rigid (Γ.apply s₁) b
    pure ⟨s₁.compose s₂, .prod (s₂.apply fstTy) sndTy⟩
  | .fst p => do
    let ⟨s₁, pairTy⟩ ← inferTerm rigid Γ p
    let left ← freshVar
    let right ← freshVar
    let s₂ ← equate rigid pairTy (.prod left right)
    pure ⟨s₁.compose s₂, s₂.apply left⟩
  | .snd p => do
    let ⟨s₁, pairTy⟩ ← inferTerm rigid Γ p
    let left ← freshVar
    let right ← freshVar
    let s₂ ← equate rigid pairTy (.prod left right)
    pure ⟨s₁.compose s₂, s₂.apply right⟩
  | .tt => pure (.plain .bool)
  | .ff => pure (.plain .bool)
  | .cond c t e => do
    let ⟨s₁, condTy⟩ ← inferTerm rigid Γ c
    let s := s₁.compose (← equate rigid condTy .bool)
    let ⟨s₂, thenTy⟩ ← inferTerm rigid (Γ.apply s) t
    let s := s.compose s₂
    let ⟨s₃, elseTy⟩ ← inferTerm rigid (Γ.apply s) e
    let s := s.compose s₃
    let s₄ ← equate rigid (s₃.apply thenTy) elseTy
    pure ⟨s.compose s₄, s₄.apply elseTy⟩
  | .zero => pure (.plain .nat)
  -- A chain of successors is a natural exactly when the term below it is one.
  | .succ (.succ t) => inferTerm rigid Γ (.succ t)
  | .succ t => do
    let ⟨s₁, ty⟩ ← inferTerm rigid Γ t
    let s₂ ← equate rigid ty .nat
    pure ⟨s₁.compose s₂, .nat⟩
  | .natRec base step n => do
    let ⟨s, baseTy⟩ ← inferTerm rigid Γ base
    let ⟨s₁, stepTy⟩ ← inferTerm rigid (Γ.apply s) step
    let s := s.compose s₁
    let acc := s₁.apply baseTy
    let s₂ ← equate rigid stepTy (.arrow .nat (.arrow acc acc))
    let s := s.compose s₂
    let acc := s₂.apply acc
    let ⟨s₃, countTy⟩ ← inferTerm rigid (Γ.apply s) n
    let s := s.compose s₃
    let acc := s₃.apply acc
    let s₄ ← equate rigid countTy .nat
    pure ⟨s.compose s₄, s₄.apply acc⟩

/-! ## Checkers -/

/-- What type reconstruction keeps between calls. -/
structure Checker where
  supply : NameSupply := {}
  /-- The variables that the latest call did not bind. -/
  rigid : IdentSet := ∅

namespace Checker

instance : Inhabited Checker := ⟨{}⟩

/-- Run an inference on the checker's supply. -/
def onSupply {α : Type} (act : InferM α) : EStateM (Failure TypeError) Checker α := fun c =>
  match act c.supply with
  | .ok a supply => .ok a { c with supply }
  | .error e supply => .error e { c with supply }

/-- A type variable that was not used before. -/
def freshVar : EStateM (Failure TypeError) Checker Ty := onSupply InferM.freshVar

/-- The type of a term in `Γ`. The supply first moves past the variables of `Γ`. -/
def infer (Γ : Context) (t : Term) : EStateM (Failure TypeError) Checker Inferred := do
  modify fun c => { c with rigid := Γ.declaredVars }
  onSupply (InferM.ofSupply (NameSupply.avoid Γ.vars.toList))
  onSupply (inferTerm (← get).rigid Γ t)

/-- The substitution under which a term has an expected type in `Γ`. -/
def check (Γ : Context) (t : Term) (expected : Ty) :
    EStateM (Failure TypeError) Checker Subst := do
  let ⟨s₁, ty⟩ ← infer Γ t
  let s₂ ← onSupply (InferM.equate (← get).rigid ty (s₁.apply expected))
  pure (s₁.compose s₂)

end Checker

/-- The type of a term in `Γ`, found by a new checker. -/
def typeCheck (t : Term) (Γ : Context) : Except (Failure TypeError) Inferred :=
  match Checker.infer Γ t {} with
  | .ok r _ => .ok r
  | .error e _ => .error e

end SystemT
