import SystemT.Ty.Subst

/-!
# Contexts

A context gives types to bound indices and to declared constants. Declared types are never refined:
the type variables in them stand for fixed unknown types, and a substitution applies to the bound
slots alone (`Context.apply`).
-/

namespace SystemT

/-- The types of the enclosing binders, innermost first, and of the declared constants. -/
structure Context where
  bound : List Ty := []
  free : IdentMap Ty := ∅

namespace Context

/-- No binders and no declarations. -/
def empty : Context := {}

instance : Inhabited Context := ⟨empty⟩

/-- Enter a binder whose variable has type `t`. -/
def push (Γ : Context) (t : Ty) : Context := { Γ with bound := t :: Γ.bound }

/-- Declare a constant, or declare it anew. -/
def declare (Γ : Context) (x : Ident) (t : Ty) : Context := { Γ with free := Γ.free.insert x t }

/-- The type of an index. -/
def get? (Γ : Context) (i : Nat) : Option Ty := Γ.bound[i]?

/-- The type of a declared constant. -/
def lookup? (Γ : Context) (x : Ident) : Option Ty := Γ.free[x]?

/-- The number of enclosing binders. -/
def depth (Γ : Context) : Nat := Γ.bound.length

/-- The type variables of the declared constants. -/
def declaredVars (Γ : Context) : IdentSet := Γ.free.values.foldl Ty.addVars ∅

/-- The type variables of the whole context. -/
def vars (Γ : Context) : IdentSet := Γ.bound.foldl Ty.addVars Γ.declaredVars

/-- Change every type of the context. -/
def mapTypes (Γ : Context) (f : Ty → Ty) : Context where
  bound := Γ.bound.map f
  free := Γ.free.map fun _ => f

/-- Apply a substitution to the bound slots; declarations keep their types. -/
def apply (Γ : Context) (s : Subst) : Context := { Γ with bound := Γ.bound.map s.apply }

/-- Is `Γ` an instance of `general` under `s`? Every bound slot of `general` has to become the
corresponding one of `Γ`, and every declaration of `general` has to be one of `Γ`. -/
def isInstanceOf (Γ general : Context) (s : Subst) : Bool :=
  general.bound.map s.apply = Γ.bound &&
    general.free.toList.all fun (x, t) => Γ.lookup? x = some t

end Context

end SystemT
