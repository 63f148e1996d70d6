import SystemT.Term.Traversal

/-!
# Shifting and substitution

Moving a term below further binders raises its escaping indices (`shiftBy`, `shift`); putting a
term for an index removes that index's binder (`subst`). `substSharing` is substitution of a closed
term, which is put in unshifted, and leaves known closed subterms unvisited. Which subterms are
known may depend on where they stand; for `substClosed`, it does not.

Each operation comes in two forms, a plain one over all natural numbers and one with a question
mark that is a fault where an addition would reach `indexLimit`.
-/

namespace SystemT

/-- Where in a computation something happens: the turns that were taken on the way there, the last
one first. -/
abbrev Place := List Nat

namespace Traversal

/-- Add `d` to every index at or above the cutoff, which is what is carried along. -/
def shifting (d : Nat) : Traversal Nat where
  bound c i := .bvar (if i < c then i else i + d)
  under c := c + 1
  boundFits c i := i < c || i + d < indexLimit
  underFits c := c + 1 < indexLimit

end Traversal

namespace Term

/-- Raise the indices at or above the cutoff `c` by `d`. -/
def shiftBy (t : Term) (c d : Nat) : Term := (Traversal.shifting d).run c t

/-- Make room for a binder that `n` other binders lie inside of. -/
def shift (t : Term) (n : Nat) : Term := t.shiftBy n 1

/-- Does `shiftBy` stay within bounds? -/
def shiftByFits (t : Term) (c d : Nat) : Bool := (Traversal.shifting d).fits c t

/-- As `shiftBy`, but a fault if an addition reaches `indexLimit`. -/
def shiftBy? (t : Term) (c d : Nat) : Except Fault Term := (Traversal.shifting d).run? c t

/-- As `shift`, but a fault if an addition reaches `indexLimit`. -/
def shift? (t : Term) (n : Nat) : Except Fault Term := t.shiftBy? n 1

/-- Does shifting past one new binder stay within bounds? -/
def liftFits (t : Term) : Bool := t.shiftByFits 0 1

end Term

namespace Traversal

/-- What the index `i` becomes when `s` is put for the index `k` and `k`'s binder goes. -/
def replaceIndex (k : Nat) (s : Term) (i : Nat) : Term :=
  if i = k then s else .bvar (if k < i then i - 1 else i)

/-- Put a term for an index, both of which are carried along. -/
def substituting : Traversal (Nat × Term) where
  bound := fun (k, s) i => replaceIndex k s i
  under := fun (k, s) => (k + 1, s.shift 0)
  underFits := fun (k, s) => k + 1 < indexLimit && s.liftFits

/-- Put `s`, unshifted, for the index that is carried along, and keep the children that are in
`shared` at the places where they stand. -/
def substitutingClosed (s : Term) (shared : Place → Term → Bool) : Traversal (Nat × Place) where
  bound := fun (k, _) i => replaceIndex k s i
  under := fun (k, place) => (k + 1, 0 :: place)
  part i := fun (k, place) => (k, i :: place)
  keeps := fun (_, place) t => shared place t
  underFits := fun (k, _) => k + 1 < indexLimit

end Traversal

namespace Term

/-- Put `s` for the index `k` and remove its binder: indices above `k` drop by one. -/
def subst (t : Term) (k : Nat) (s : Term) : Term := Traversal.substituting.run (k, s) t

/-- As `subst`, but a fault if an addition reaches `indexLimit`. -/
def subst? (t : Term) (k : Nat) (s : Term) : Except Fault Term :=
  Traversal.substituting.run? (k, s) t

/-- As `subst`, for a closed `s`, which nothing can capture, so that it is not shifted. Subterms in
`shared`, which are to be closed, are not visited. This test is told where a subterm stands, with
`place` for `t` itself, so that it may tell subterms apart that are equal. -/
def substSharing (t : Term) (k : Nat) (s : Term) (shared : Place → Term → Bool) (place : Place) :
    Term :=
  (Traversal.substitutingClosed s shared).run (k, place) t

/-- As `substSharing`, but a fault if an addition reaches `indexLimit`. -/
def substSharing? (t : Term) (k : Nat) (s : Term) (shared : Place → Term → Bool) (place : Place) :
    Except Fault Term :=
  (Traversal.substitutingClosed s shared).run? (k, place) t

/-- As `substSharing`, with equal subterms treated alike. -/
def substClosed (t : Term) (k : Nat) (s : Term) (shared : Term → Bool) : Term :=
  t.substSharing k s (fun _ => shared) []

/-- As `substClosed`, but a fault if an addition reaches `indexLimit`. -/
def substClosed? (t : Term) (k : Nat) (s : Term) (shared : Term → Bool) : Except Fault Term :=
  t.substSharing? k s (fun _ => shared) []

/-! ## Equations -/

@[simp] theorem shiftBy_fvar (x : Ident) (m d : Nat) : (fvar x).shiftBy m d = fvar x := rfl

@[simp] theorem shiftBy_bvar (i : Nat) (m d : Nat) :
    (bvar i).shiftBy m d = bvar (if i < m then i else i + d) := rfl

@[simp] theorem shiftBy_lam (b : Term) (m d : Nat) :
    (lam b).shiftBy m d = lam (b.shiftBy (m + 1) d) := rfl

@[simp] theorem shiftBy_app (f a : Term) (m d : Nat) :
    (app f a).shiftBy m d = app (f.shiftBy m d) (a.shiftBy m d) := rfl

@[simp] theorem shiftBy_pair (a b : Term) (m d : Nat) :
    (pair a b).shiftBy m d = pair (a.shiftBy m d) (b.shiftBy m d) := rfl

@[simp] theorem shiftBy_fst (p : Term) (m d : Nat) :
    (fst p).shiftBy m d = fst (p.shiftBy m d) := rfl

@[simp] theorem shiftBy_snd (p : Term) (m d : Nat) :
    (snd p).shiftBy m d = snd (p.shiftBy m d) := rfl

@[simp] theorem shiftBy_tt (m d : Nat) : tt.shiftBy m d = tt := rfl

@[simp] theorem shiftBy_ff (m d : Nat) : ff.shiftBy m d = ff := rfl

@[simp] theorem shiftBy_cond (c t e : Term) (m d : Nat) :
    (cond c t e).shiftBy m d = cond (c.shiftBy m d) (t.shiftBy m d) (e.shiftBy m d) := rfl

@[simp] theorem shiftBy_zero (m d : Nat) : zero.shiftBy m d = zero := rfl

@[simp] theorem shiftBy_succ (t : Term) (m d : Nat) :
    (succ t).shiftBy m d = succ (t.shiftBy m d) := Traversal.run_succ ..

@[simp] theorem shiftBy_natRec (b s n : Term) (m d : Nat) :
    (natRec b s n).shiftBy m d = natRec (b.shiftBy m d) (s.shiftBy m d) (n.shiftBy m d) := rfl

@[simp] theorem subst_fvar (x : Ident) (k : Nat) (u : Term) : (fvar x).subst k u = fvar x := rfl

@[simp] theorem subst_bvar (i : Nat) (k : Nat) (u : Term) :
    (bvar i).subst k u = Traversal.replaceIndex k u i := rfl

@[simp] theorem subst_lam (b : Term) (k : Nat) (u : Term) :
    (lam b).subst k u = lam (b.subst (k + 1) (u.shift 0)) := rfl

@[simp] theorem subst_app (f a : Term) (k : Nat) (u : Term) :
    (app f a).subst k u = app (f.subst k u) (a.subst k u) := rfl

@[simp] theorem subst_pair (a b : Term) (k : Nat) (u : Term) :
    (pair a b).subst k u = pair (a.subst k u) (b.subst k u) := rfl

@[simp] theorem subst_fst (p : Term) (k : Nat) (u : Term) :
    (fst p).subst k u = fst (p.subst k u) := rfl

@[simp] theorem subst_snd (p : Term) (k : Nat) (u : Term) :
    (snd p).subst k u = snd (p.subst k u) := rfl

@[simp] theorem subst_tt (k : Nat) (u : Term) : tt.subst k u = tt := rfl

@[simp] theorem subst_ff (k : Nat) (u : Term) : ff.subst k u = ff := rfl

@[simp] theorem subst_cond (c t e : Term) (k : Nat) (u : Term) :
    (cond c t e).subst k u = cond (c.subst k u) (t.subst k u) (e.subst k u) := rfl

@[simp] theorem subst_zero (k : Nat) (u : Term) : zero.subst k u = zero := rfl

@[simp] theorem subst_succ (t : Term) (k : Nat) (u : Term) :
    (succ t).subst k u = succ (t.subst k u) := Traversal.run_succ ..

@[simp] theorem subst_natRec (b s n : Term) (k : Nat) (u : Term) :
    (natRec b s n).subst k u = natRec (b.subst k u) (s.subst k u) (n.subst k u) := rfl

end Term

end SystemT
