import SystemT.Proofs.Evaluation.Agreement

/-!
# Evaluation among closed terms

Which terms are refused as open is told by their indices alone (`Term.indices`). If some of these
belong to no binder of the term (`Term.escaping`), the leftmost one is reported; there is one
exactly if the term is not closed.

A closed term never comes to such an error, however ill typed it is, as everything on the way to a
result is closed as well: the reducts, the steps of a recursion and the numbers that it counts
through. What is found is a closed value (`Yields.isClosedValue`), and what is reported is about one
or about a constant (`Yields.closed_error`). A value that is evaluated again is left as it is,
whatever is recognised (`Fixed`).
-/

namespace SystemT

namespace Term

/-! ## Escaping indices -/

/-- The indices of a term from left to right, each after the number of binders around it, of which
`depth` are around the whole term. -/
def indices (t : Term) (depth : Nat) : List (Nat × Nat) :=
  match t with
  | bvar i => [(depth, i)]
  | lam b => b.indices (depth + 1)
  | fvar _ => []
  | tt => []
  | ff => []
  | zero => []
  | succ t => t.indices depth
  | fst p => p.indices depth
  | snd p => p.indices depth
  | app f a => f.indices depth ++ a.indices depth
  | pair a b => a.indices depth ++ b.indices depth
  | cond c t e => c.indices depth ++ t.indices depth ++ e.indices depth
  | natRec b s n => b.indices depth ++ s.indices depth ++ n.indices depth

/-- What an index is as counted from outside the binders around it, unless it belongs to one of
these. -/
def outside? : Nat × Nat → Option Nat :=
  fun (depth, i) => if depth ≤ i then some (i - depth) else none

/-- The indices that belong to no binder of a term, from left to right, as counted from outside. -/
def escaping (t : Term) : List Nat := (t.indices 0).filterMap outside?

theorem firstEscaping?_eq_head? (t : Term) (depth : Nat) :
    t.firstEscaping? depth = ((t.indices depth).filterMap outside?).head? := by
  induction t generalizing depth with
  | fvar | tt | ff | zero => rfl
  | bvar i =>
    rw [firstEscaping?, indices, List.filterMap_cons, outside?]
    split <;> rfl
  | lam b ih => exact ih (depth + 1)
  | fst p ih | snd p ih | succ p ih => exact ih depth
  | app a b iha ihb | pair a b iha ihb =>
    rw [firstEscaping?, indices, List.filterMap_append, List.head?_append, iha, ihb]
  | cond a b c iha ihb ihc | natRec a b c iha ihb ihc =>
    rw [firstEscaping?, indices, List.filterMap_append, List.filterMap_append, List.head?_append,
      List.head?_append, iha, ihb, ihc]

theorem closed_eq_false_iff (t : Term) :
    t.closed = false ↔ ∃ i, t.escaping.head? = some i := by
  rw [← Option.isSome_iff_exists, ← Option.ne_none_iff_isSome, escaping,
    ← firstEscaping?_eq_head?, Ne, firstEscaping?_eq_none_iff, Bool.not_eq_true]
  exact Iff.rfl

/-! ## Values -/

/-- Values are abstractions, truth values, zero, and the successors and pairs of values. -/
inductive Value : Term → Prop where
  | lam (b : Term) : Value (lam b)
  | tt : Value tt
  | ff : Value ff
  | zero : Value zero
  | succ {v : Term} : Value v → Value (succ v)
  | pair {a b : Term} : Value a → Value b → Value (pair a b)

theorem isValue_iff (t : Term) : t.isValue = true ↔ Value t := by
  constructor
  · intro h
    induction t with
    | lam b => exact .lam b
    | tt => exact .tt
    | ff => exact .ff
    | zero => exact .zero
    | succ t ih => exact .succ (ih h)
    | pair a b iha ihb =>
      simp only [isValue, Bool.and_eq_true] at h
      exact .pair (iha h.1) (ihb h.2)
    | fvar | bvar | app | fst | snd | cond | natRec => cases h
  · intro h
    induction h with
    | lam | tt | ff | zero => rfl
    | succ _ ih => exact ih
    | pair _ _ iha ihb => rw [isValue, iha, ihb]; rfl

end Term

namespace Evaluation

/-! ## Errors -/

/-- The error is about a constant or a closed value. -/
def ClosedError : EvalError → Prop
  | .openTerm _ => False
  | .unresolved _ => True
  | .notFunction v | .notBool v | .notNat v | .notPair v => v.isClosedValue = true

/-- The errors of closed jobs say nothing about open terms. -/
theorem Yields.closed_error {job : Job} {e : EvalError} (h : Yields job (.error e))
    (hjob : job.Closed) : ClosedError e := by
  generalize hr : Except.error e = r at h
  -- the rules that yield values say nothing about errors
  induction h generalizing e with
  | lam | tt | ff | zero | pair | fst | snd | succ | iterateZero => cases hr
  | fvar =>
    cases hr
    trivial
  | bvar => cases hjob
  | appFn _ ih => exact ih (Term.closed_app.mp hjob).1 hr
  | appArg _ _ _ ih => exact ih (Term.closed_app.mp hjob).2 hr
  | app hf ha _ _ _ ih =>
    obtain ⟨hfc, hac⟩ := Term.closed_app.mp hjob
    exact ih ⟨hf.isClosedValue hfc, ha.isClosedValue hac⟩ hr
  | beta _ ih => exact ih hjob.beta hr
  | notFunction _ =>
    cases hr
    exact hjob.1
  | pairFst _ ih => exact ih (Term.closed_pair.mp hjob).1 hr
  | pairSnd _ _ _ ih => exact ih (Term.closed_pair.mp hjob).2 hr
  | fstOf _ ih | sndOf _ ih | succOf _ ih => exact ih hjob hr
  | fstNotPair hv _ | sndNotPair hv _ =>
    cases hr
    exact hv.isClosedValue hjob
  | condOf _ ih => exact ih (Term.closed_cond.mp hjob).1 hr
  | condTrue _ _ _ ih => exact ih (Term.closed_cond.mp hjob).2.1 hr
  | condFalse _ _ _ ih => exact ih (Term.closed_cond.mp hjob).2.2 hr
  | condNotBool hv _ _ =>
    cases hr
    exact hv.isClosedValue (Term.closed_cond.mp hjob).1
  | recScrutinee _ ih => exact ih (Term.closed_natRec.mp hjob).2.2 hr
  | recNotNat hv _ =>
    cases hr
    exact hv.isClosedValue (Term.closed_natRec.mp hjob).2.2
  | recStep _ _ _ ih => exact ih (Term.closed_natRec.mp hjob).2.1 hr
  | recBase _ _ _ _ _ ih => exact ih (Term.closed_natRec.mp hjob).1 hr
  | natRec _ hs hb _ _ _ _ ih =>
    obtain ⟨hbc, hsc, -⟩ := Term.closed_natRec.mp hjob
    exact ih ⟨hb.isClosedValue hbc, hs.isClosedValue hsc⟩ hr
  | iterateBelow _ ih => exact ih hjob hr
  | iteratePred _ _ _ ih => exact ih ⟨hjob.2, Term.isClosedValue_numeral _⟩ hr
  | iterateSucc hv hf _ _ _ ih =>
    have hpartial := hf.isClosedValue ⟨hjob.2, Term.isClosedValue_numeral _⟩
    exact ih ⟨hpartial, hv.isClosedValue hjob⟩ hr

/-! ## Fixed points -/

/-- A closed value, which evaluation leaves as it is: at once if it is recognised, and otherwise
with enough fuel, whatever parts of it are. -/
structure Fixed (v : Term) : Prop where
  closed : v.closed = true
  value : v.Value
  evaluate : ∀ fuel, v.tryEvaluate (fuel + 1) = .ok v
  settles : ∀ known place values, Recogniser.Sound known → ClosedValues values →
    Settles (fun fuel => eval known fuel place values v) (.ok v)

theorem fixed_of_isClosedValue {v : Term} (h : v.isClosedValue = true) : Fixed v := by
  obtain ⟨hvalue, hclosed⟩ := (Term.isClosedValue_iff v).mp h
  refine ⟨hclosed, (Term.isValue_iff v).mp hvalue, fun fuel => ?_,
    fun known place values hk htable => ?_⟩
  · rw [tryEvaluate_of_closed hclosed]
    exact eval_known h
  · exact (yields_of_isValue hvalue).settles hk hclosed htable

section

variable {known : Recogniser} {place : Place} {values : List Term} {t : Term}

theorem fixed_of_eval (hk : Recogniser.Sound known) (hvalues : ClosedValues values)
    (ht : t.closed = true) {fuel : Nat} {v : Term} (h : eval known fuel place values t = .ok v) :
    Fixed v := by
  have hyields : Yields (.term t) (.ok v) :=
    (agrees_eval hk fuel t place values ht hvalues).yields h
  exact fixed_of_isClosedValue (hyields.isClosedValue ht)

theorem eval_ne_openTerm (hk : Recogniser.Sound known) (hvalues : ClosedValues values)
    (ht : t.closed = true) (fuel i : Nat) :
    eval known fuel place values t ≠ fail (.openTerm i) := by
  intro h
  have hyields : Yields (.term t) (.error (.openTerm i)) :=
    (agrees_eval hk fuel t place values ht hvalues).yields h
  exact hyields.closed_error ht

end

theorem tryEvaluate_eq_openTerm_iff (t : Term) (fuel i : Nat) :
    t.tryEvaluate fuel = fail (.openTerm i) ↔ t.escaping.head? = some i := by
  rw [Term.escaping, ← Term.firstEscaping?_eq_head?]
  cases h : t.firstEscaping? 0 with
  | some j => simp [Term.tryEvaluate, Term.tryEvaluateWith, h, fail]
  | none =>
    have ht : t.closed = true := (Term.firstEscaping?_eq_none_iff t 0).mp h
    rw [tryEvaluate_of_closed ht]
    refine iff_of_false ?_ (Option.some_ne_none i).symm
    exact eval_ne_openTerm closedValue_sound closedValues_nil ht fuel i

/-- **Evaluation stays among closed terms and reaches fixed points**, be the term well typed or not.
It is refused as open exactly if it is not closed, and then its leftmost escaping index is reported.
What is found for a closed term is a closed value that is left as it is when it is evaluated again.
What is recognised on the way and where, be it nothing at all, makes no difference to this. -/
theorem tryEvaluate_fixed (t : Term) :
    (∀ fuel, (∃ i, t.tryEvaluate fuel = fail (.openTerm i)) ↔ t.closed = false) ∧
    (∀ fuel i, t.tryEvaluate fuel = fail (.openTerm i) ↔ t.escaping.head? = some i) ∧
    (t.closed = true → ∀ fuel v, t.tryEvaluate fuel = .ok v → Fixed v) ∧
    (t.closed = true → ∀ known place values, Recogniser.Sound known → ClosedValues values →
      (∀ fuel i, eval known fuel place values t ≠ fail (.openTerm i)) ∧
      ∀ fuel v, eval known fuel place values t = .ok v → Fixed v) := by
  refine ⟨fun fuel => ?_, tryEvaluate_eq_openTerm_iff t, fun ht fuel v h => ?_,
    fun ht known place values hk hvalues => ?_⟩
  · simp only [tryEvaluate_eq_openTerm_iff, Term.closed_eq_false_iff]
  · rw [tryEvaluate_of_closed ht] at h
    exact fixed_of_eval closedValue_sound closedValues_nil ht h
  · exact ⟨eval_ne_openTerm hk hvalues ht, fun fuel v h => fixed_of_eval hk hvalues ht h⟩

/-- The successor of a pair, which has no type, below a pair with a function that came to hold the
argument; nothing is recognised here. Of two escaping indices below a binder the left one counts. -/
theorem tryEvaluate_fixed_illTyped :
    (∃ t v, t = Term.app (.lam (.pair (.succ (.bvar 0)) (.lam (.bvar 1)))) (.pair .tt .zero) ∧
      v = Term.pair (.succ (.pair .tt .zero)) (.lam (.pair .tt .zero)) ∧
      ∃ known : Recogniser, known = (fun _ _ _ => false) ∧
      t.closed = true ∧ Recogniser.Sound known ∧ ClosedValues [] ∧
      t.tryEvaluate 9 = .ok v ∧ eval known 9 [] [] t = .ok v ∧ Fixed v) ∧
    ∃ u, u = Term.lam (.app (.bvar 0) (.pair (.bvar 3) (.bvar 1))) ∧
      u.escaping = [2, 0] ∧ u.tryEvaluate 9 = fail (.openTerm 2) := by
  have hnone : Recogniser.Sound fun _ _ _ => false := fun _ _ _ h => Bool.noConfusion h
  constructor
  · refine ⟨_, _, rfl, rfl, _, rfl, rfl, hnone, closedValues_nil, rfl, rfl, ?_⟩
    have h := (tryEvaluate_fixed
      (.app (.lam (.pair (.succ (.bvar 0)) (.lam (.bvar 1)))) (.pair .tt .zero))).2.2.2 rfl
    exact (h _ [] _ hnone closedValues_nil).2 9 _ rfl
  · exact ⟨_, rfl, rfl, ((tryEvaluate_fixed _).2.1 9 2).mpr rfl⟩

end Evaluation

end SystemT
