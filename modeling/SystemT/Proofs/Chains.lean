import Mathlib.Logic.Function.Iterate
import SystemT.Proofs.Evaluation.Agreement
import SystemT.Proofs.Inference.Rules
import SystemT.Term.Parallel

/-!
# Chains of successors

Whatever meets a successor goes down the whole chain that the successor begins, in a loop, so that
numerals of any size are ordinary. Here a successor is a node with one child like any other, and the
loops are shown to make no difference, over whatever the chain ends in:

- the traversals rebuild a term node by node (`Traversal.run?_eq_byNodes?`), be the nodes of a chain
  counted or kept, and with the same faults;
- a question about the indices of a term has one answer (`IndexFold.byChains_eq_byNodes`);
- a successor evaluates to the successor of what its operand evaluates to, or to the operand's error
  (`Evaluation.settles_succ_iff`);
- a successor has the type that the rule for one node gives it, with the same substitution and the
  same fresh variables (`inferTerm_succ_eq_asNat`).
-/

namespace SystemT

/-! ## Peeling a chain -/

namespace Term

/-- What a chain ends in does not depend on how many successors were counted above it. -/
theorem splitSuccs_split_fst (t : Term) (n : Nat) :
    (splitSuccs.split n t).1 = t.splitSuccs.1 := by
  induction t generalizing n with
  | succ t ih => exact (ih (n + 1)).trans (ih 1).symm
  | fvar | bvar | lam | app | pair | fst | snd | tt | ff | cond | zero | natRec => rfl

/-- The chain that a successor begins ends in what that of its operand ends in. -/
@[simp] theorem splitSuccs_succ_fst (t : Term) : (succ t).splitSuccs.1 = t.splitSuccs.1 :=
  t.splitSuccs_split_fst 1

theorem sizeOf_splitSuccs_le (t : Term) : sizeOf t.splitSuccs.1 ≤ sizeOf t := by
  induction t with
  | succ t ih =>
    rw [splitSuccs_succ_fst, succ.sizeOf_spec]
    omega
  | fvar | bvar | lam | app | pair | fst | snd | tt | ff | cond | zero | natRec =>
    exact Nat.le_refl _

end Term

/-! ## Traversals -/

/-- A result that stays within bounds under a condition. -/
def inBounds {α : Type} (fits : Bool) (a : α) : Except Fault α :=
  if fits then .ok a else .error .indexOverflow

section

variable {α β : Type}

@[simp] theorem map_inBounds (f : α → β) (p : Bool) (a : α) :
    f <$> inBounds p a = inBounds p (f a) := by
  cases p <;> rfl

/-- Two results stay within bounds if both do. -/
@[simp] theorem seq_inBounds (f : α → β) (p q : Bool) (a : α) :
    inBounds p f <*> inBounds q a = inBounds (p && q) (f a) := by
  cases p <;> cases q <;> rfl

theorem inBounds_inBounds (p q : Bool) (a : α) :
    (if p then inBounds q a else .error .indexOverflow) = inBounds (p && q) a := by
  cases p <;> rfl

end

namespace Traversal

variable {ε : Type} (m : Traversal ε)

/-- What becomes of a child is `visited`, unless the child is kept. -/
def orKept (env : ε) (t : Term) (visited : Except Fault Term) : Except Fault Term :=
  if m.keeps env t then .ok t else visited

/-- Carry out a traversal node by node, with every addition checked where it is made. -/
def byNodes? (env : ε) : Term → Except Fault Term
  | .fvar x => .ok (m.free env x)
  | .bvar i => inBounds (m.boundFits env i) (m.bound env i)
  | .lam b =>
    if m.underFits env then Term.lam <$> m.orKept (m.under env) b (byNodes? (m.under env) b)
    else .error .indexOverflow
  | .app f a =>
    Term.app <$> m.orKept (m.part 0 env) f (byNodes? (m.part 0 env) f)
      <*> m.orKept (m.part 1 env) a (byNodes? (m.part 1 env) a)
  | .pair a b =>
    Term.pair <$> m.orKept (m.part 0 env) a (byNodes? (m.part 0 env) a)
      <*> m.orKept (m.part 1 env) b (byNodes? (m.part 1 env) b)
  | .fst p => Term.fst <$> m.orKept (m.part 0 env) p (byNodes? (m.part 0 env) p)
  | .snd p => Term.snd <$> m.orKept (m.part 0 env) p (byNodes? (m.part 0 env) p)
  | .tt => .ok .tt
  | .ff => .ok .ff
  | .cond c t e =>
    Term.cond <$> m.orKept (m.part 0 env) c (byNodes? (m.part 0 env) c)
      <*> m.orKept (m.part 1 env) t (byNodes? (m.part 1 env) t)
      <*> m.orKept (m.part 2 env) e (byNodes? (m.part 2 env) e)
  | .zero => .ok .zero
  | .succ t => Term.succ <$> m.orKept (m.part 0 env) t (byNodes? (m.part 0 env) t)
  | .natRec b s n =>
    Term.natRec <$> m.orKept (m.part 0 env) b (byNodes? (m.part 0 env) b)
      <*> m.orKept (m.part 1 env) s (byNodes? (m.part 1 env) s)
      <*> m.orKept (m.part 2 env) n (byNodes? (m.part 2 env) n)

theorem orKept_run? (env : ε) (t : Term) :
    m.orKept env t (m.run? env t) =
      inBounds (m.keeps env t || m.fits env t) (m.child env t) := by
  unfold orKept child
  cases m.keeps env t with
  | true => rfl
  | false => rfl

/-- **A chain of successors is traversed as if node by node.** The loop that counts the successors,
and hands back the chain it was given if nothing below it changes, gives the same terms and the same
faults as a recursion that has no special case for them. -/
theorem run?_eq_byNodes? (env : ε) (t : Term) : m.run? env t = m.byNodes? env t := by
  induction t generalizing env with
  | fvar | tt | ff | zero => rfl
  | bvar i => rfl
  | lam b ih =>
    rw [byNodes?, ← ih, orKept_run?, map_inBounds, inBounds_inBounds]
    rfl
  | fst p ih | snd p ih =>
    rw [byNodes?, ← ih, orKept_run?, map_inBounds]
    rfl
  | succ t ih =>
    rw [byNodes?, ← ih, orKept_run?, map_inBounds, ← run_succ]
    rfl
  | app a b iha ihb | pair a b iha ihb =>
    rw [byNodes?, ← iha, ← ihb, orKept_run?, orKept_run?, map_inBounds, seq_inBounds]
    rfl
  | cond a b c iha ihb ihc | natRec a b c iha ihb ihc =>
    rw [byNodes?, ← iha, ← ihb, ← ihc, orKept_run?, orKept_run?, orKept_run?, map_inBounds,
      seq_inBounds, seq_inBounds]
    rfl

end Traversal

/-! ## Questions about indices -/

/-- A question about the indices of a term, with the number of binders around it in mind. -/
structure IndexFold (β : Type) where
  /-- The answer where there is no index. -/
  leaf : β
  /-- The answer at an index below `depth` binders. -/
  bound (depth i : Nat) : β
  /-- The answer at a binder below `depth` others, from the answer for its body. -/
  under (depth : Nat) (body : β) : β
  /-- The answer from those for two children, from left to right. -/
  both (left right : β) : β

namespace IndexFold

variable {β : Type} (q : IndexFold β)

/-- Ask node by node. -/
def byNodes (depth : Nat) : Term → β
  | .fvar _ | .tt | .ff | .zero => q.leaf
  | .bvar i => q.bound depth i
  | .lam b => q.under depth (byNodes (depth + 1) b)
  | .fst p | .snd p | .succ p => byNodes depth p
  | .app a b | .pair a b => q.both (byNodes depth a) (byNodes depth b)
  | .cond a b c | .natRec a b c =>
    q.both (q.both (byNodes depth a) (byNodes depth b)) (byNodes depth c)

/-- Ask with every chain of successors taken off at once. -/
def byChains (depth : Nat) : Term → β
  | .fvar _ | .tt | .ff | .zero => q.leaf
  | .bvar i => q.bound depth i
  | .lam b => q.under depth (byChains (depth + 1) b)
  | .fst p | .snd p => byChains depth p
  | .succ t => byChains depth (Term.succ t).splitSuccs.1
  | .app a b | .pair a b => q.both (byChains depth a) (byChains depth b)
  | .cond a b c | .natRec a b c =>
    q.both (q.both (byChains depth a) (byChains depth b)) (byChains depth c)
termination_by t => sizeOf t
decreasing_by
  all_goals simp_wf
  -- what is below a chain is no larger than the operand of its first successor
  all_goals have := Term.sizeOf_splitSuccs_le
  all_goals grind

theorem byNodes_splitSuccs (depth : Nat) (t : Term) :
    q.byNodes depth t.splitSuccs.1 = q.byNodes depth t := by
  induction t with
  | succ t ih =>
    rw [Term.splitSuccs_succ_fst]
    exact ih
  | fvar | bvar | lam | app | pair | fst | snd | tt | ff | cond | zero | natRec => rfl

/-- **A chain of successors has the answer of what is below it**, so that taking it off at once
changes no answer. -/
theorem byChains_eq_byNodes (depth : Nat) (t : Term) : q.byChains depth t = q.byNodes depth t := by
  fun_induction q.byChains depth t with
  | case9 depth t ih =>
    -- a successor
    rw [ih, byNodes_splitSuccs, byNodes]
  | _ => simp only [byNodes, *]

/-- Which is the leftmost index that escapes? -/
def escaping : IndexFold (Option Nat) where
  leaf := none
  bound depth i := if depth ≤ i then some (i - depth) else none
  under _ body := body
  both := Option.or

/-- Do all indices belong to binders? Going below a binder is an addition that may leave the
bounds. -/
def closedness : IndexFold (Except Fault Bool) where
  leaf := .ok true
  bound depth i := .ok (i < depth)
  under depth body := if depth + 1 < indexLimit then body else .error .indexOverflow
  both left right := Term.closedAt?.andThen left fun _ => right

theorem firstEscaping?_eq_byNodes (t : Term) (depth : Nat) :
    t.firstEscaping? depth = escaping.byNodes depth t := by
  induction t generalizing depth with
  | fvar | bvar | tt | ff | zero => rfl
  | lam b ih => exact ih (depth + 1)
  | fst p ih | snd p ih | succ p ih => exact ih depth
  | app a b iha ihb | pair a b iha ihb =>
    rw [Term.firstEscaping?, iha, ihb]
    rfl
  | cond a b c iha ihb ihc | natRec a b c iha ihb ihc =>
    rw [Term.firstEscaping?, iha, ihb, ihc]
    rfl

theorem closedAt?_eq_byNodes (t : Term) (depth : Nat) :
    t.closedAt? depth = closedness.byNodes depth t := by
  -- of three answers it does not matter which two are joined first
  have hassoc : ∀ x y z : Except Fault Bool,
      Term.closedAt?.andThen x (fun _ => Term.closedAt?.andThen y fun _ => z) =
        Term.closedAt?.andThen (Term.closedAt?.andThen x fun _ => y) fun _ => z := by
    intro x y z
    cases x with
    | error f => rfl
    | ok b => cases b <;> rfl
  induction t generalizing depth with
  | fvar | bvar | tt | ff | zero => rfl
  | lam b ih =>
    rw [Term.closedAt?, ih]
    rfl
  | fst p ih | snd p ih | succ p ih => exact ih depth
  | app a b iha ihb | pair a b iha ihb =>
    rw [Term.closedAt?, iha, ihb]
    rfl
  | cond a b c iha ihb ihc | natRec a b c iha ihb ihc =>
    rw [Term.closedAt?, iha, ihb, ihc, hassoc]
    rfl

end IndexFold

/-! ## Evaluation -/

namespace Evaluation

variable {known : Recogniser} {place : Place} {values : List Term} {run : Nat → Result}
  {res : Result} {t : Term} {r : Except EvalError Term}

/-- A successor comes to the same end as what is below it. -/
theorem bind_succ_eq_finished :
    (res >>= fun v => .ok (.succ v)) = finished (r.map .succ) ↔ res = finished r := by
  constructor
  · intro h
    rcases res with (e | f) | v <;> rcases r with e' | v' <;> cases h <;> rfl
  · rintro rfl
    cases r <;> rfl

/-- What comes to an end as a successor is the successor of something, or an error. -/
theorem exists_of_bind_succ (h : (res >>= fun v => .ok (.succ v)) = finished r) :
    ∃ r' : Except EvalError Term, r = r'.map .succ := by
  cases r with
  | error e => exact ⟨.error e, rfl⟩
  | ok v =>
    rcases res with e | u
    · cases h
    · cases h
      exact ⟨.ok u, rfl⟩

theorem settles_bind_succ_iff :
    Settles (fun fuel => run fuel >>= fun v => .ok (.succ v)) r ↔
      ∃ r', r = r'.map .succ ∧ Settles run r' := by
  constructor
  · rintro ⟨enough, h⟩
    obtain ⟨r', rfl⟩ := exists_of_bind_succ (h enough (Nat.le_refl _))
    exact ⟨r', rfl, enough, fun fuel hfuel => bind_succ_eq_finished.mp (h fuel hfuel)⟩
  · rintro ⟨r', rfl, enough, h⟩
    exact ⟨enough, fun fuel hfuel => bind_succ_eq_finished.mpr (h fuel hfuel)⟩

/-- A closed value evaluates to itself and to nothing else. -/
theorem settles_value_iff (hk : Recogniser.Sound known) (hvalues : ClosedValues values)
    (ht : t.isClosedValue = true) :
    Settles (fun fuel => eval known fuel place values t) r ↔ r = .ok t := by
  have hvalue := (Term.isClosedValue_iff t).mp ht
  have hself : Settles (fun fuel => eval known fuel place values t) (.ok t) :=
    (yields_of_isValue hvalue.1).settles hk hvalue.2 hvalues
  constructor
  · rintro ⟨enough, h⟩
    obtain ⟨enough', hself⟩ := hself
    refine finished_injective ?_
    rw [← h (max enough enough') (by omega), ← hself (max enough enough') (by omega)]
  · rintro rfl
    exact hself

/-- **A successor evaluates to the successor of what its operand evaluates to**, and to the same
error. This holds whatever is recognised on the way down the chain, and be the chain itself a value
that is returned at once. -/
theorem settles_succ_iff (hk : Recogniser.Sound known) (hvalues : ClosedValues values) :
    Settles (fun fuel => eval known fuel place values (.succ t)) r ↔
      ∃ r', r = r'.map .succ ∧ Settles (fun fuel => eval known fuel (0 :: place) values t) r' := by
  by_cases hsucc : known place values (.succ t) = true
  · have ht : (Term.succ t).isClosedValue = true := hk.isClosedValue hvalues hsucc
    rw [settles_value_iff hk hvalues ht]
    simp only [settles_value_iff hk hvalues ((Term.isClosedValue_succ t).mp ht), exists_eq_right]
    rfl
  · rw [← settles_bind_succ_iff]
    have heq := eval_succ hsucc
    constructor
    · intro h
      rcases heq with heq | heq
      · obtain ⟨enough, h⟩ := h
        refine ⟨enough, fun fuel hfuel => ?_⟩
        exact (heq fuel).symm.trans (h (fuel + 1) (by omega))
      · exact h.of_succ fun fuel => .inr (heq fuel).symm
    · intro h
      exact h.of_succ fun fuel => heq.imp (· fuel) (· fuel)

/-- As many successors go around what a chain evaluates to as go around what it ends in, which is
met one turn further on for each of them. -/
theorem settles_succs_iff (hk : Recogniser.Sound known) (hvalues : ClosedValues values) (n : Nat) :
    Settles (fun fuel => eval known fuel place values (.succs n t)) r ↔
      ∃ r', r = r'.map (.succs n) ∧
        Settles (fun fuel => eval known fuel (.replicate n 0 ++ place) values t) r' := by
  induction n generalizing place r with
  | zero =>
    have hmap : ∀ r' : Except EvalError Term, r'.map (Term.succs 0) = r' := fun r' => by
      cases r' <;> rfl
    simp only [hmap, exists_eq_left', Term.succs_zero, List.replicate_zero, List.nil_append]
  | succ n ih =>
    have hmap : ∀ r' : Except EvalError Term,
        r'.map (Term.succs (n + 1)) = (r'.map (Term.succs n)).map Term.succ := fun r' => by
      cases r' with
      | error e => rfl
      | ok v => exact congrArg Except.ok (Term.succs_succ n v)
    simp only [Term.succs_succ n t, settles_succ_iff hk hvalues, ih, hmap, List.replicate_succ',
      List.append_assoc, List.singleton_append]
    constructor
    · rintro ⟨_, rfl, r', rfl, h⟩
      exact ⟨r', rfl, h⟩
    · rintro ⟨r', rfl, h⟩
      exact ⟨_, rfl, r', rfl, h⟩

end Evaluation

/-! ## Inference -/

namespace InferM

/-- The rule for one successor: the operand's type is made equal to `nat`. -/
def asNat (rigid : IdentSet) (operand : InferM Inferred) : InferM Inferred := do
  let ⟨s₁, ty⟩ ← operand
  let s₂ ← equate rigid ty .nat
  pure ⟨s₁.compose s₂, .nat⟩

/-- What is a natural already is made one again by no new equation. -/
theorem asNat_asNat (rigid : IdentSet) (operand : InferM Inferred) :
    asNat rigid (asNat rigid operand) = asNat rigid operand := by
  have hequate : equate rigid .nat .nat = pure ∅ := by
    rw [equate, unify_nat_nat]
  simp only [asNat, bind_assoc, pure_bind, hequate, Subst.compose_empty]

end InferM

/-- **A successor is typed by its own rule**, whether or not its operand is a successor: the
equations that a chain leaves out bind nothing. -/
theorem inferTerm_succ_eq_asNat (rigid : IdentSet) (Γ : Context) (t : Term) :
    inferTerm rigid Γ (.succ t) = InferM.asNat rigid (inferTerm rigid Γ t) := by
  induction t with
  | succ t ih =>
    rw [inferTerm, ih, InferM.asNat_asNat]
  | fvar | bvar | lam | app | pair | fst | snd | tt | ff | cond | zero | natRec =>
    exact inferTerm_succ (by rintro ⟨u, ⟨⟩⟩)

/-- A chain is typed in one go: what it ends in is made a natural once. -/
theorem inferTerm_succ_eq_splitSuccs (rigid : IdentSet) (Γ : Context) (t : Term) :
    inferTerm rigid Γ (.succ t) =
      InferM.asNat rigid (inferTerm rigid Γ (Term.succ t).splitSuccs.1) := by
  rw [Term.splitSuccs_succ_fst]
  induction t with
  | succ t ih => rw [inferTerm, ih, Term.splitSuccs_succ_fst]
  | fvar | bvar | lam | app | pair | fst | snd | tt | ff | cond | zero | natRec =>
    exact inferTerm_succ_eq_asNat ..

theorem inferTerm_succs (rigid : IdentSet) (Γ : Context) (n : Nat) (t : Term) :
    inferTerm rigid Γ (.succs n t) = (InferM.asNat rigid)^[n] (inferTerm rigid Γ t) := by
  induction n with
  | zero => rfl
  | succ n ih => rw [Term.succs_succ, inferTerm_succ_eq_asNat, ih, Function.iterate_succ_apply']

/-! ## All loops -/

open Evaluation in
/-- **Loops over chains of successors make no difference**, however long a chain is and whatever it
ends in. Shifting, substitution and the parallel substitutions give the terms and faults of a
recursion that treats a successor like any other node with one child, and so does the substitution
that keeps known subterms, wherever these stand; taking a chain off at once changes neither whether
a term is closed nor which index escapes first. A successor evaluates to the successor of what its
operand evaluates to, or to the same error. Inference gives it the type, the substitution and the
supply, or the error, that come from inferring the operand and making its type equal to `nat`, once
for each successor. -/
theorem chains_node_by_node :
    (∀ t c d, Term.shiftBy? t c d = (Traversal.shifting d).byNodes? c t) ∧
    (∀ t k s, Term.subst? t k s = Traversal.substituting.byNodes? (k, s) t) ∧
    (∀ t k s shared place, Term.substSharing? t k s shared place =
      (Traversal.substitutingClosed s shared).byNodes? (k, place) t) ∧
    (∀ t s, Term.substIndices? t s = Traversal.replacingIndices.byNodes? s t) ∧
    (∀ t s, Term.substConsts? t s = Traversal.replacingConsts.byNodes? s t) ∧
    (∀ t depth, Term.closedAt? t depth = IndexFold.closedness.byChains depth t ∧
      Term.closedAt? t depth = IndexFold.closedness.byNodes depth t) ∧
    (∀ t depth, Term.firstEscaping? t depth = IndexFold.escaping.byChains depth t ∧
      Term.firstEscaping? t depth = IndexFold.escaping.byNodes depth t) ∧
    (∀ known place values, Recogniser.Sound known → ClosedValues values → ∀ t r,
      (Settles (fun fuel => eval known fuel place values (.succ t)) r ↔
        ∃ r', r = r'.map .succ ∧
          Settles (fun fuel => eval known fuel (0 :: place) values t) r') ∧
      ∀ n, Settles (fun fuel => eval known fuel place values (.succs n t)) r ↔
        ∃ r', r = r'.map (.succs n) ∧
          Settles (fun fuel => eval known fuel (.replicate n 0 ++ place) values t) r') ∧
    ∀ rigid Γ t,
      inferTerm rigid Γ (.succ t) =
        InferM.asNat rigid (inferTerm rigid Γ (Term.succ t).splitSuccs.1) ∧
      inferTerm rigid Γ (.succ t) = InferM.asNat rigid (inferTerm rigid Γ t) ∧
      ∀ n, inferTerm rigid Γ (.succs n t) = (InferM.asNat rigid)^[n] (inferTerm rigid Γ t) := by
  refine ⟨fun t c d => Traversal.run?_eq_byNodes? .., fun t k s => Traversal.run?_eq_byNodes? ..,
    fun t k s shared place => Traversal.run?_eq_byNodes? ..,
    fun t s => Traversal.run?_eq_byNodes? .., fun t s => Traversal.run?_eq_byNodes? ..,
    fun t depth => ?_, fun t depth => ?_,
    fun known place values hk hvalues t r =>
      ⟨settles_succ_iff hk hvalues, settles_succs_iff hk hvalues⟩,
    fun rigid Γ t => ?_⟩
  · rw [IndexFold.byChains_eq_byNodes]
    exact ⟨IndexFold.closedAt?_eq_byNodes t depth, IndexFold.closedAt?_eq_byNodes t depth⟩
  · rw [IndexFold.byChains_eq_byNodes]
    exact ⟨IndexFold.firstEscaping?_eq_byNodes t depth, IndexFold.firstEscaping?_eq_byNodes t depth⟩
  · exact ⟨inferTerm_succ_eq_splitSuccs rigid Γ t, inferTerm_succ_eq_asNat rigid Γ t,
      fun n => inferTerm_succs rigid Γ n t⟩

open Evaluation in
/-- An error below a successor, with the numeral one in the table and nothing else recognised. -/
theorem chains_node_by_node_error :
    ∃ known : Recogniser, known = (fun _ values u => decide (u ∈ values)) ∧
      Recogniser.Sound known ∧ ClosedValues [.numeral 1] ∧
      Settles (fun fuel => eval known fuel [] [.numeral 1] (.succ (.app .zero .zero)))
        (.error (.notFunction .zero)) := by
  have hk : Recogniser.Sound fun _ values u => decide (u ∈ values) :=
    fun _ _ _ hu => .inl (of_decide_eq_true hu)
  have hvalues : ClosedValues [.numeral 1] := closedValues_nil.cons rfl
  refine ⟨_, rfl, hk, hvalues, ?_⟩
  obtain ⟨-, -, -, -, -, -, -, heval, -⟩ := chains_node_by_node
  refine (heval _ [] _ hk hvalues _ _).1.mpr
    ⟨.error (.notFunction .zero), rfl, 2, fun fuel hfuel => ?_⟩
  obtain ⟨fuel, rfl⟩ : ∃ n, fuel = n + 2 := ⟨fuel - 2, by omega⟩
  rfl

end SystemT
