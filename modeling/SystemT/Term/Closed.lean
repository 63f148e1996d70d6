import SystemT.Fault
import SystemT.Term.Basic

/-!
# Closed terms

A term is closed at depth `d` if none of its indices reaches past `d` binders around it.
`firstEscaping?` finds the leftmost index that does.
-/

namespace SystemT

namespace Term

/-- Do all indices of the term belong to its own binders or to `depth` binders around it? -/
def closedAt (t : Term) (depth : Nat) : Bool :=
  match t with
  | bvar i => i < depth
  | lam b => b.closedAt (depth + 1)
  | fvar _ => true
  | tt => true
  | ff => true
  | zero => true
  | succ t => t.closedAt depth
  | fst p => p.closedAt depth
  | snd p => p.closedAt depth
  | app f a => f.closedAt depth && a.closedAt depth
  | pair a b => a.closedAt depth && b.closedAt depth
  | cond c t e => c.closedAt depth && t.closedAt depth && e.closedAt depth
  | natRec b s n => b.closedAt depth && s.closedAt depth && n.closedAt depth

/-- Is the term closed, with no binder around it? -/
def closed (t : Term) : Bool := t.closedAt 0

/-- The scope of a term is the least depth at which it is closed. -/
theorem closedAt_iff_scope_le (t : Term) (depth : Nat) :
    t.closedAt depth = true ↔ t.scope ≤ depth := by
  induction t generalizing depth with
  | fvar | tt | ff | zero => simp [closedAt, scope]
  | bvar i => simp only [closedAt, scope, decide_eq_true_eq]; omega
  | lam b ih => simp only [closedAt, scope, ih]; omega
  | fst p ih | snd p ih | succ p ih => simpa only [closedAt, scope] using ih depth
  | app a b iha ihb | pair a b iha ihb =>
    simp only [closedAt, scope, Bool.and_eq_true, iha, ihb]; omega
  | cond a b c iha ihb ihc | natRec a b c iha ihb ihc =>
    simp only [closedAt, scope, Bool.and_eq_true, iha, ihb, ihc]; omega

theorem closed_iff_scope_eq_zero (t : Term) : t.closed = true ↔ t.scope = 0 := by
  rw [closed, closedAt_iff_scope_le, Nat.le_zero]

/-- As `closedAt`, but a fault if the depth reaches `indexLimit` below a binder that is looked into.
Once an index is found to escape nothing to its right is looked at. -/
def closedAt? (t : Term) (depth : Nat) : Except Fault Bool :=
  match t with
  | bvar i => .ok (i < depth)
  | lam b => if depth + 1 < indexLimit then b.closedAt? (depth + 1) else .error .indexOverflow
  | fvar _ => .ok true
  | tt => .ok true
  | ff => .ok true
  | zero => .ok true
  | succ t => t.closedAt? depth
  | fst p => p.closedAt? depth
  | snd p => p.closedAt? depth
  | app f a => andThen (f.closedAt? depth) fun _ => a.closedAt? depth
  | pair a b => andThen (a.closedAt? depth) fun _ => b.closedAt? depth
  | cond c t e =>
    andThen (c.closedAt? depth) fun _ =>
      andThen (t.closedAt? depth) fun _ => e.closedAt? depth
  | natRec b s n =>
    andThen (b.closedAt? depth) fun _ =>
      andThen (s.closedAt? depth) fun _ => n.closedAt? depth
where
  /-- The second answer is asked for only if the first is `true`. -/
  andThen (first : Except Fault Bool) (second : Unit → Except Fault Bool) : Except Fault Bool :=
    match first with
    | .ok true => second ()
    | other => other

/-- The leftmost index that belongs to none of the term's binders nor to `depth` binders around
it, as counted from outside all of these. -/
def firstEscaping? (t : Term) (depth : Nat) : Option Nat :=
  match t with
  | bvar i => if depth ≤ i then some (i - depth) else none
  | lam b => b.firstEscaping? (depth + 1)
  | fvar _ => none
  | tt => none
  | ff => none
  | zero => none
  | succ t => t.firstEscaping? depth
  | fst p => p.firstEscaping? depth
  | snd p => p.firstEscaping? depth
  | app f a => (f.firstEscaping? depth).or (a.firstEscaping? depth)
  | pair a b => (a.firstEscaping? depth).or (b.firstEscaping? depth)
  | cond c t e =>
    ((c.firstEscaping? depth).or (t.firstEscaping? depth)).or (e.firstEscaping? depth)
  | natRec b s n =>
    ((b.firstEscaping? depth).or (s.firstEscaping? depth)).or (n.firstEscaping? depth)

end Term

end SystemT
