import SystemT.Fault
import SystemT.Term.Basic

/-!
# Traversals

Renumbering indices and putting terms for indices or constants all rebuild a term from its leaves,
with something carried along that changes below a binder. A `Traversal` says what happens at the
leaves and below binders, `Traversal.run` carries it out, and each operation is one value of this
type. What is carried along may tell the parts of a term apart, so that equal terms at different
places need not be treated alike.

Chains of successors are walked in a loop that counts them (`Traversal.walk`); nevertheless `run`
treats a successor like any other node with one child (`run_succ`), and the other equations of
`run` read the same way.

Indices live below `indexLimit`. `Traversal.fits` tells whether every addition that a run performs
stays below it, and `Traversal.run?` is `run` with that checked.
-/

namespace SystemT

/-- What a traversal does at leaves and binders; `ε` is what it carries along. -/
structure Traversal (ε : Type) where
  /-- What an index becomes. -/
  bound : ε → Nat → Term
  /-- What a constant becomes. -/
  free : ε → Ident → Term := fun _ x => .fvar x
  /-- What is carried along below one more binder. -/
  under : ε → ε
  /-- What is carried along in the `i`-th part of a term, counted from zero. -/
  part : Nat → ε → ε := fun _ env => env
  /-- Is a child kept as it is, without a visit? -/
  keeps : ε → Term → Bool := fun _ _ => false
  /-- Does renumbering this index stay within bounds? -/
  boundFits : ε → Nat → Bool := fun _ _ => true
  /-- Does going below one more binder stay within bounds? -/
  underFits : ε → Bool

namespace Traversal

variable {ε : Type} (m : Traversal ε)

/-- Rebuild `n` successors over `t`, of which `top` is the outermost. If the chain ends in zero or
in a child that is kept, nothing below `top` changes and `top` is the result. -/
def walk (env : ε) (top : Term) (n : Nat) (t : Term) : Term :=
  match t with
  | .succ t => if m.keeps (m.part 0 env) t then top else walk (m.part 0 env) top (n + 1) t
  | .zero => top
  | .fvar x => .succs n (m.free env x)
  | .bvar i => .succs n (m.bound env i)
  | .tt => .succs n .tt
  | .ff => .succs n .ff
  | .lam b => .succs n (.lam (if m.keeps (m.under env) b then b else walk (m.under env) b 0 b))
  | .app f a =>
    .succs n (.app (if m.keeps (m.part 0 env) f then f else walk (m.part 0 env) f 0 f)
      (if m.keeps (m.part 1 env) a then a else walk (m.part 1 env) a 0 a))
  | .pair a b =>
    .succs n (.pair (if m.keeps (m.part 0 env) a then a else walk (m.part 0 env) a 0 a)
      (if m.keeps (m.part 1 env) b then b else walk (m.part 1 env) b 0 b))
  | .fst p => .succs n (.fst (if m.keeps (m.part 0 env) p then p else walk (m.part 0 env) p 0 p))
  | .snd p => .succs n (.snd (if m.keeps (m.part 0 env) p then p else walk (m.part 0 env) p 0 p))
  | .cond c t e =>
    .succs n (.cond (if m.keeps (m.part 0 env) c then c else walk (m.part 0 env) c 0 c)
      (if m.keeps (m.part 1 env) t then t else walk (m.part 1 env) t 0 t)
      (if m.keeps (m.part 2 env) e then e else walk (m.part 2 env) e 0 e))
  | .natRec b s k =>
    .succs n (.natRec (if m.keeps (m.part 0 env) b then b else walk (m.part 0 env) b 0 b)
      (if m.keeps (m.part 1 env) s then s else walk (m.part 1 env) s 0 s)
      (if m.keeps (m.part 2 env) k then k else walk (m.part 2 env) k 0 k))

/-- Carry out a traversal. -/
def run (env : ε) (t : Term) : Term := m.walk env t 0 t

/-- What becomes of a child: it is kept or traversed. -/
def child (env : ε) (t : Term) : Term := if m.keeps env t then t else m.run env t

/-- Does every addition that `run` performs stay below `indexLimit`? -/
def fits (env : ε) (t : Term) : Bool :=
  match t with
  | .succ t => m.keeps (m.part 0 env) t || fits (m.part 0 env) t
  | .zero => true
  | .fvar _ => true
  | .bvar i => m.boundFits env i
  | .tt => true
  | .ff => true
  | .lam b => m.underFits env && (m.keeps (m.under env) b || fits (m.under env) b)
  | .app f a =>
    (m.keeps (m.part 0 env) f || fits (m.part 0 env) f) &&
      (m.keeps (m.part 1 env) a || fits (m.part 1 env) a)
  | .pair a b =>
    (m.keeps (m.part 0 env) a || fits (m.part 0 env) a) &&
      (m.keeps (m.part 1 env) b || fits (m.part 1 env) b)
  | .fst p => m.keeps (m.part 0 env) p || fits (m.part 0 env) p
  | .snd p => m.keeps (m.part 0 env) p || fits (m.part 0 env) p
  | .cond c t e =>
    (m.keeps (m.part 0 env) c || fits (m.part 0 env) c) &&
      (m.keeps (m.part 1 env) t || fits (m.part 1 env) t) &&
      (m.keeps (m.part 2 env) e || fits (m.part 2 env) e)
  | .natRec b s k =>
    (m.keeps (m.part 0 env) b || fits (m.part 0 env) b) &&
      (m.keeps (m.part 1 env) s || fits (m.part 1 env) s) &&
      (m.keeps (m.part 2 env) k || fits (m.part 2 env) k)

/-- As `run`, but a fault if an addition reaches `indexLimit`. -/
def run? (env : ε) (t : Term) : Except Fault Term :=
  if m.fits env t then .ok (m.run env t) else .error .indexOverflow

/-! ## Equations

`walk` counts successors and remembers the top of the chain; `run` is free of both. -/

/-- The successors counted so far go around the result, and `top` stands for its own rebuilding. -/
theorem walk_eq (env : ε) (t : Term) :
    ∀ (top : Term) (n : Nat), top = .succs n t → m.walk env top n t = .succs n (m.run env t) := by
  induction t generalizing env with
  | succ t ih =>
    intro top n htop
    have hchain : top = .succs (n + 1) t := by
      rw [htop]; rfl
    by_cases hk : m.keeps (m.part 0 env) t
    · simp [walk, run, hk, htop]
    · have hrun : m.run env (.succ t) = .succ (m.run (m.part 0 env) t) := by
        show (if m.keeps (m.part 0 env) t then _ else m.walk (m.part 0 env) (.succ t) 1 t) = _
        rw [if_neg hk]
        exact ih (m.part 0 env) (.succ t) 1 rfl
      show (if m.keeps (m.part 0 env) t then top else m.walk (m.part 0 env) top (n + 1) t) = _
      rw [if_neg hk, ih (m.part 0 env) top (n + 1) hchain, hrun]
      rfl
  | zero => intro top n htop; simpa [walk, run] using htop
  | fvar x => intros; rfl
  | bvar i => intros; rfl
  | tt => intros; rfl
  | ff => intros; rfl
  | lam b => intros; rfl
  | app f a => intros; rfl
  | pair a b => intros; rfl
  | fst p => intros; rfl
  | snd p => intros; rfl
  | cond c t e => intros; rfl
  | natRec b s k => intros; rfl

@[simp] theorem run_succ (env : ε) (t : Term) :
    m.run env (.succ t) = .succ (m.child (m.part 0 env) t) := by
  show (if m.keeps (m.part 0 env) t then _ else m.walk (m.part 0 env) (.succ t) 1 t) = _
  unfold child
  by_cases hk : m.keeps (m.part 0 env) t
  · simp [hk]
  · rw [if_neg hk, if_neg hk]
    exact m.walk_eq (m.part 0 env) t (.succ t) 1 rfl

@[simp] theorem run_zero (env : ε) : m.run env .zero = .zero := rfl

@[simp] theorem run_fvar (env : ε) (x : Ident) : m.run env (.fvar x) = m.free env x := rfl

@[simp] theorem run_bvar (env : ε) (i : Nat) : m.run env (.bvar i) = m.bound env i := rfl

@[simp] theorem run_tt (env : ε) : m.run env .tt = .tt := rfl

@[simp] theorem run_ff (env : ε) : m.run env .ff = .ff := rfl

@[simp] theorem run_lam (env : ε) (b : Term) :
    m.run env (.lam b) = .lam (m.child (m.under env) b) := rfl

@[simp] theorem run_app (env : ε) (f a : Term) :
    m.run env (.app f a) = .app (m.child (m.part 0 env) f) (m.child (m.part 1 env) a) := rfl

@[simp] theorem run_pair (env : ε) (a b : Term) :
    m.run env (.pair a b) = .pair (m.child (m.part 0 env) a) (m.child (m.part 1 env) b) := rfl

@[simp] theorem run_fst (env : ε) (p : Term) :
    m.run env (.fst p) = .fst (m.child (m.part 0 env) p) := rfl

@[simp] theorem run_snd (env : ε) (p : Term) :
    m.run env (.snd p) = .snd (m.child (m.part 0 env) p) := rfl

@[simp] theorem run_cond (env : ε) (c t e : Term) :
    m.run env (.cond c t e) = .cond (m.child (m.part 0 env) c) (m.child (m.part 1 env) t)
      (m.child (m.part 2 env) e) := rfl

@[simp] theorem run_natRec (env : ε) (b s k : Term) :
    m.run env (.natRec b s k) = .natRec (m.child (m.part 0 env) b) (m.child (m.part 1 env) s)
      (m.child (m.part 2 env) k) := rfl

end Traversal

end SystemT
