import SystemT.Term.Subst

/-!
# Parallel substitution

Many indices (`IndexSubst`) or many constants (`ConstSubst`) are replaced in one traversal. Going
below a binder lifts the whole map: every replacement is shifted past the new binder, and the keys
of an `IndexSubst` move up by one. Constants are names, which binders do not affect.
-/

namespace SystemT

/-! ## Indices -/

/-- Terms to be put for bound indices. -/
structure IndexSubst where
  entries : Std.ExtTreeMap Nat Term

namespace IndexSubst

/-- No index is replaced. -/
def empty : IndexSubst := ⟨∅⟩

instance : EmptyCollection IndexSubst := ⟨empty⟩

instance : Inhabited IndexSubst := ⟨empty⟩

/-- The replacements in a list; of two for one index the later counts. -/
def ofList (bindings : List (Nat × Term)) : IndexSubst := ⟨.ofList bindings⟩

/-- Put `a` for the index `i`. -/
def insert (s : IndexSubst) (i : Nat) (a : Term) : IndexSubst := ⟨s.entries.insert i a⟩

/-- What is put for `i`. -/
def get? (s : IndexSubst) (i : Nat) : Option Term := s.entries[i]?

/-- The number of indices replaced. -/
def size (s : IndexSubst) : Nat := s.entries.size

/-- Is no index replaced? -/
def isEmpty (s : IndexSubst) : Bool := s.entries.isEmpty

/-- The map as seen from below one more binder. -/
def lift (s : IndexSubst) : IndexSubst :=
  ofList (s.entries.toList.map fun (i, a) => (i + 1, a.shift 0))

/-- Does `lift` stay within bounds? -/
def liftFits (s : IndexSubst) : Bool :=
  s.entries.toList.all fun (i, a) => i + 1 < indexLimit && a.liftFits

/-- As `lift`, but a fault if an addition reaches `indexLimit`. -/
def lift? (s : IndexSubst) : Except Fault IndexSubst :=
  if s.liftFits then .ok s.lift else .error .indexOverflow

/-- What an index that is not replaced becomes once the binders of those that are have gone. -/
def renumber (s : IndexSubst) (i : Nat) : Nat := i - s.entries.keys.countP (· < i)

end IndexSubst

/-! ## Constants -/

/-- Terms to be put for declared constants. -/
structure ConstSubst where
  entries : IdentMap Term

namespace ConstSubst

/-- No constant is replaced. -/
def empty : ConstSubst := ⟨∅⟩

instance : EmptyCollection ConstSubst := ⟨empty⟩

instance : Inhabited ConstSubst := ⟨empty⟩

/-- The replacements in a list; of two for one constant the later counts. -/
def ofList (bindings : List (Ident × Term)) : ConstSubst := ⟨.ofList bindings⟩

/-- Put `a` for the constant `x`. -/
def insert (s : ConstSubst) (x : Ident) (a : Term) : ConstSubst := ⟨s.entries.insert x a⟩

/-- Leave the constant `x` alone. -/
def erase (s : ConstSubst) (x : Ident) : ConstSubst := ⟨s.entries.erase x⟩

/-- What is put for `x`. -/
def get? (s : ConstSubst) (x : Ident) : Option Term := s.entries[x]?

/-- The number of constants replaced. -/
def size (s : ConstSubst) : Nat := s.entries.size

/-- Is no constant replaced? -/
def isEmpty (s : ConstSubst) : Bool := s.entries.isEmpty

/-- The map as seen from below one more binder. -/
def lift (s : ConstSubst) : ConstSubst := ⟨s.entries.map fun _ a => a.shift 0⟩

/-- Does `lift` stay within bounds? -/
def liftFits (s : ConstSubst) : Bool := s.entries.toList.all fun (_, a) => a.liftFits

/-- As `lift`, but a fault if an addition reaches `indexLimit`. -/
def lift? (s : ConstSubst) : Except Fault ConstSubst :=
  if s.liftFits then .ok s.lift else .error .indexOverflow

end ConstSubst

/-! ## Terms -/

namespace Traversal

/-- Replace the indices of the map that is carried along and renumber the others. -/
def replacingIndices : Traversal IndexSubst where
  bound s i := (s.get? i).getD (.bvar (s.renumber i))
  under s := s.lift
  underFits s := s.liftFits

/-- Replace the constants of the map that is carried along. -/
def replacingConsts : Traversal ConstSubst where
  bound _ i := .bvar i
  free s x := (s.get? x).getD (.fvar x)
  under s := s.lift
  underFits s := s.liftFits

end Traversal

namespace Term

/-- Put terms for all indices that `s` replaces, and remove the binders of these. -/
def substIndices (t : Term) (s : IndexSubst) : Term := Traversal.replacingIndices.run s t

/-- As `substIndices`, but a fault if an addition reaches `indexLimit`. -/
def substIndices? (t : Term) (s : IndexSubst) : Except Fault Term :=
  Traversal.replacingIndices.run? s t

/-- Put terms for all constants that `s` replaces. -/
def substConsts (t : Term) (s : ConstSubst) : Term := Traversal.replacingConsts.run s t

/-- As `substConsts`, but a fault if an addition reaches `indexLimit`. -/
def substConsts? (t : Term) (s : ConstSubst) : Except Fault Term :=
  Traversal.replacingConsts.run? s t

/-! ## Equations -/

@[simp] theorem substIndices_fvar (x : Ident) (r : IndexSubst) :
    (fvar x).substIndices r = fvar x := rfl

@[simp] theorem substIndices_bvar (i : Nat) (r : IndexSubst) :
    (bvar i).substIndices r = (r.get? i).getD (bvar (r.renumber i)) := rfl

@[simp] theorem substIndices_lam (b : Term) (r : IndexSubst) :
    (lam b).substIndices r = lam (b.substIndices r.lift) := rfl

@[simp] theorem substIndices_app (f a : Term) (r : IndexSubst) :
    (app f a).substIndices r = app (f.substIndices r) (a.substIndices r) := rfl

@[simp] theorem substIndices_pair (a b : Term) (r : IndexSubst) :
    (pair a b).substIndices r = pair (a.substIndices r) (b.substIndices r) := rfl

@[simp] theorem substIndices_fst (p : Term) (r : IndexSubst) :
    (fst p).substIndices r = fst (p.substIndices r) := rfl

@[simp] theorem substIndices_snd (p : Term) (r : IndexSubst) :
    (snd p).substIndices r = snd (p.substIndices r) := rfl

@[simp] theorem substIndices_tt (r : IndexSubst) : tt.substIndices r = tt := rfl

@[simp] theorem substIndices_ff (r : IndexSubst) : ff.substIndices r = ff := rfl

@[simp] theorem substIndices_cond (c t e : Term) (r : IndexSubst) :
    (cond c t e).substIndices r =
      cond (c.substIndices r) (t.substIndices r) (e.substIndices r) := rfl

@[simp] theorem substIndices_zero (r : IndexSubst) : zero.substIndices r = zero := rfl

@[simp] theorem substIndices_succ (t : Term) (r : IndexSubst) :
    (succ t).substIndices r = succ (t.substIndices r) := Traversal.run_succ ..

@[simp] theorem substIndices_natRec (b s n : Term) (r : IndexSubst) :
    (natRec b s n).substIndices r =
      natRec (b.substIndices r) (s.substIndices r) (n.substIndices r) := rfl

@[simp] theorem substConsts_fvar (x : Ident) (r : ConstSubst) :
    (fvar x).substConsts r = (r.get? x).getD (fvar x) := rfl

@[simp] theorem substConsts_bvar (i : Nat) (r : ConstSubst) : (bvar i).substConsts r = bvar i := rfl

@[simp] theorem substConsts_lam (b : Term) (r : ConstSubst) :
    (lam b).substConsts r = lam (b.substConsts r.lift) := rfl

@[simp] theorem substConsts_app (f a : Term) (r : ConstSubst) :
    (app f a).substConsts r = app (f.substConsts r) (a.substConsts r) := rfl

@[simp] theorem substConsts_pair (a b : Term) (r : ConstSubst) :
    (pair a b).substConsts r = pair (a.substConsts r) (b.substConsts r) := rfl

@[simp] theorem substConsts_fst (p : Term) (r : ConstSubst) :
    (fst p).substConsts r = fst (p.substConsts r) := rfl

@[simp] theorem substConsts_snd (p : Term) (r : ConstSubst) :
    (snd p).substConsts r = snd (p.substConsts r) := rfl

@[simp] theorem substConsts_tt (r : ConstSubst) : tt.substConsts r = tt := rfl

@[simp] theorem substConsts_ff (r : ConstSubst) : ff.substConsts r = ff := rfl

@[simp] theorem substConsts_cond (c t e : Term) (r : ConstSubst) :
    (cond c t e).substConsts r = cond (c.substConsts r) (t.substConsts r) (e.substConsts r) := rfl

@[simp] theorem substConsts_zero (r : ConstSubst) : zero.substConsts r = zero := rfl

@[simp] theorem substConsts_succ (t : Term) (r : ConstSubst) :
    (succ t).substConsts r = succ (t.substConsts r) := Traversal.run_succ ..

@[simp] theorem substConsts_natRec (b s n : Term) (r : ConstSubst) :
    (natRec b s n).substConsts r =
      natRec (b.substConsts r) (s.substConsts r) (n.substConsts r) := rfl

end Term

end SystemT
