import SystemT.Evaluation
import SystemT.Proofs.Term.Closed

/-!
# Call by value

The rules of evaluation (`Yields`), as a relation that computes nothing and shares nothing. Operands
are evaluated from left to right, the first error ends the evaluation, an argument is put into a
body by substitution, a successor is evaluated node by node, and a recursion is unrolled from zero
up: its value at `k` comes before the step is applied to `k` and then to that value.

What closed terms yield are closed values (`Yields.isClosedValue`), and a value yields itself
(`yields_of_isValue`).
-/

namespace SystemT

namespace Term

/-! ## Numerals -/

theorem numeral_succ (n : Nat) : numeral (n + 1) = succ (numeral n) := succs_succ n zero

theorem asNumeral?_count_succs (n m : Nat) :
    asNumeral?.count m (numeral n) = some (m + n) := by
  induction n generalizing m with
  | zero => rfl
  | succ n ih =>
    rw [numeral_succ, asNumeral?.count, ih]
    congr 1
    omega

/-- Only numerals stand for numbers, and a numeral stands for its own. -/
theorem asNumeral?_eq_some_iff (t : Term) (n : Nat) : t.asNumeral? = some n ↔ t = numeral n := by
  constructor
  · -- what is counted above is on top of what the rest stands for
    have hcount : ∀ (t : Term) (m n : Nat), asNumeral?.count m t = some n →
        ∃ k, n = m + k ∧ t = numeral k := by
      intro t
      induction t with
      | zero =>
        intro m n h
        cases h
        exact ⟨0, rfl, rfl⟩
      | succ t ih =>
        intro m n h
        obtain ⟨k, rfl, rfl⟩ := ih (m + 1) n h
        exact ⟨k + 1, by omega, (numeral_succ k).symm⟩
      | fvar | bvar | lam | app | pair | fst | snd | tt | ff | cond | natRec =>
        intro m n h
        cases h
    intro h
    obtain ⟨k, rfl, rfl⟩ := hcount t 0 n h
    rw [Nat.zero_add]
  · rintro rfl
    rw [asNumeral?, asNumeral?_count_succs, Nat.zero_add]

/-! ## Closed values -/

theorem closed_of_isClosedValue {v : Term} (h : v.isClosedValue = true) : v.closed = true :=
  ((isClosedValue_iff v).mp h).2

theorem isClosedValue_lam {b : Term} (h : (lam b).closed = true) : (lam b).isClosedValue = true :=
  (isClosedValue_iff _).mpr ⟨rfl, h⟩

@[simp] theorem isClosedValue_pair (a b : Term) :
    (pair a b).isClosedValue = true ↔ a.isClosedValue = true ∧ b.isClosedValue = true := by
  simp only [isClosedValue_iff, isValue, closed, closedAt, Bool.and_eq_true]
  constructor
  · rintro ⟨⟨ha, hb⟩, ha', hb'⟩
    exact ⟨⟨ha, ha'⟩, hb, hb'⟩
  · rintro ⟨⟨ha, ha'⟩, hb, hb'⟩
    exact ⟨⟨ha, hb⟩, ha', hb'⟩

@[simp] theorem isClosedValue_succ (t : Term) :
    (succ t).isClosedValue = true ↔ t.isClosedValue = true := by
  simp only [isClosedValue_iff, isValue, closed, closedAt]

theorem isClosedValue_numeral (n : Nat) : (numeral n).isClosedValue = true := by
  induction n with
  | zero => rfl
  | succ n ih => rwa [numeral_succ, isClosedValue_succ]

end Term

namespace Evaluation

/-! ## Rules -/

/-- What there is to evaluate: a term, the application of a value to a value, or the recursion with
two values for base and step at a number. -/
inductive Job where
  | term (t : Term)
  | apply (fn arg : Term)
  | iterate (base step : Term) (n : Nat)

/-- The rules of call by value: a job yields a value or an error. -/
inductive Yields : Job → Except EvalError Term → Prop where
  | fvar {x : Ident} : Yields (.term (.fvar x)) (.error (.unresolved x))
  | bvar {i : Nat} : Yields (.term (.bvar i)) (.error (.openTerm i))
  | lam {b : Term} : Yields (.term (.lam b)) (.ok (.lam b))
  | tt : Yields (.term .tt) (.ok .tt)
  | ff : Yields (.term .ff) (.ok .ff)
  | zero : Yields (.term .zero) (.ok .zero)
  | appFn {f a : Term} {e : EvalError} :
      Yields (.term f) (.error e) → Yields (.term (.app f a)) (.error e)
  | appArg {f a f' : Term} {e : EvalError} : Yields (.term f) (.ok f') →
      Yields (.term a) (.error e) → Yields (.term (.app f a)) (.error e)
  | app {f a f' a' : Term} {r : Except EvalError Term} : Yields (.term f) (.ok f') →
      Yields (.term a) (.ok a') → Yields (.apply f' a') r → Yields (.term (.app f a)) r
  | beta {b a : Term} {r : Except EvalError Term} :
      Yields (.term (b.subst 0 a)) r → Yields (.apply (.lam b) a) r
  | notFunction {f a : Term} :
      (∀ b, f ≠ .lam b) → Yields (.apply f a) (.error (.notFunction f))
  | pairFst {a b : Term} {e : EvalError} :
      Yields (.term a) (.error e) → Yields (.term (.pair a b)) (.error e)
  | pairSnd {a b a' : Term} {e : EvalError} : Yields (.term a) (.ok a') →
      Yields (.term b) (.error e) → Yields (.term (.pair a b)) (.error e)
  | pair {a b a' b' : Term} : Yields (.term a) (.ok a') → Yields (.term b) (.ok b') →
      Yields (.term (.pair a b)) (.ok (.pair a' b'))
  | fstOf {p : Term} {e : EvalError} :
      Yields (.term p) (.error e) → Yields (.term (.fst p)) (.error e)
  | fst {p a b : Term} : Yields (.term p) (.ok (.pair a b)) → Yields (.term (.fst p)) (.ok a)
  | fstNotPair {p v : Term} : Yields (.term p) (.ok v) → (∀ a b, v ≠ .pair a b) →
      Yields (.term (.fst p)) (.error (.notPair v))
  | sndOf {p : Term} {e : EvalError} :
      Yields (.term p) (.error e) → Yields (.term (.snd p)) (.error e)
  | snd {p a b : Term} : Yields (.term p) (.ok (.pair a b)) → Yields (.term (.snd p)) (.ok b)
  | sndNotPair {p v : Term} : Yields (.term p) (.ok v) → (∀ a b, v ≠ .pair a b) →
      Yields (.term (.snd p)) (.error (.notPair v))
  | condOf {c t e : Term} {err : EvalError} :
      Yields (.term c) (.error err) → Yields (.term (.cond c t e)) (.error err)
  | condTrue {c t e : Term} {r : Except EvalError Term} : Yields (.term c) (.ok .tt) →
      Yields (.term t) r → Yields (.term (.cond c t e)) r
  | condFalse {c t e : Term} {r : Except EvalError Term} : Yields (.term c) (.ok .ff) →
      Yields (.term e) r → Yields (.term (.cond c t e)) r
  | condNotBool {c t e v : Term} : Yields (.term c) (.ok v) → v ≠ .tt → v ≠ .ff →
      Yields (.term (.cond c t e)) (.error (.notBool v))
  | succOf {t : Term} {e : EvalError} :
      Yields (.term t) (.error e) → Yields (.term (.succ t)) (.error e)
  | succ {t v : Term} : Yields (.term t) (.ok v) → Yields (.term (.succ t)) (.ok (.succ v))
  | recScrutinee {base step n : Term} {e : EvalError} : Yields (.term n) (.error e) →
      Yields (.term (.natRec base step n)) (.error e)
  | recNotNat {base step n v : Term} : Yields (.term n) (.ok v) → (∀ k, v ≠ .numeral k) →
      Yields (.term (.natRec base step n)) (.error (.notNat v))
  | recStep {base step n : Term} {k : Nat} {e : EvalError} :
      Yields (.term n) (.ok (.numeral k)) → Yields (.term step) (.error e) →
      Yields (.term (.natRec base step n)) (.error e)
  | recBase {base step n s : Term} {k : Nat} {e : EvalError} :
      Yields (.term n) (.ok (.numeral k)) → Yields (.term step) (.ok s) →
      Yields (.term base) (.error e) → Yields (.term (.natRec base step n)) (.error e)
  | natRec {base step n b s : Term} {k : Nat} {r : Except EvalError Term} :
      Yields (.term n) (.ok (.numeral k)) → Yields (.term step) (.ok s) →
      Yields (.term base) (.ok b) → Yields (.iterate b s k) r →
      Yields (.term (.natRec base step n)) r
  | iterateZero {b s : Term} : Yields (.iterate b s 0) (.ok b)
  | iterateBelow {b s : Term} {k : Nat} {e : EvalError} :
      Yields (.iterate b s k) (.error e) → Yields (.iterate b s (k + 1)) (.error e)
  | iteratePred {b s v : Term} {k : Nat} {e : EvalError} : Yields (.iterate b s k) (.ok v) →
      Yields (.apply s (.numeral k)) (.error e) → Yields (.iterate b s (k + 1)) (.error e)
  | iterateSucc {b s v f : Term} {k : Nat} {r : Except EvalError Term} :
      Yields (.iterate b s k) (.ok v) → Yields (.apply s (.numeral k)) (.ok f) →
      Yields (.apply f v) r → Yields (.iterate b s (k + 1)) r

/-- A value yields itself. -/
theorem yields_of_isValue {v : Term} (h : v.isValue = true) : Yields (.term v) (.ok v) := by
  induction v with
  | lam b => exact .lam
  | tt => exact .tt
  | ff => exact .ff
  | zero => exact .zero
  | succ v ih => exact .succ (ih h)
  | pair a b iha ihb =>
    simp only [Term.isValue, Bool.and_eq_true] at h
    exact .pair (iha h.1) (ihb h.2)
  | fvar | bvar | app | fst | snd | cond | natRec => cases h

/-! ## Closedness -/

/-- A job without escaping indices, of which the parts that are to be values are. -/
def Job.Closed : Job → Prop
  | term t => t.closed = true
  | apply f a => f.isClosedValue = true ∧ a.isClosedValue = true
  | iterate b s _ => b.isClosedValue = true ∧ s.isClosedValue = true

theorem Job.Closed.beta {b a : Term} (h : (Job.apply (.lam b) a).Closed) :
    (Job.term (b.subst 0 a)).Closed :=
  Term.closedAt_subst (Term.closed_of_isClosedValue h.1) (Term.closed_of_isClosedValue h.2)
    (Nat.le_refl 0)

/-- What a closed job yields is a closed value. -/
theorem Yields.isClosedValue {job : Job} {v : Term} (h : Yields job (.ok v)) (hjob : job.Closed) :
    v.isClosedValue = true := by
  generalize hr : Except.ok v = r at h
  -- the rules that yield errors say nothing about values
  induction h generalizing v with
  | fvar | bvar | appFn | appArg | notFunction | pairFst | pairSnd | fstOf | fstNotPair | sndOf
  | sndNotPair | condOf | condNotBool | succOf | recScrutinee | recNotNat | recStep | recBase
  | iterateBelow | iteratePred => cases hr
  | lam =>
    cases hr
    exact Term.isClosedValue_lam hjob
  | tt | ff | zero =>
    cases hr
    rfl
  | app _ _ _ ihf iha ihr =>
    obtain ⟨hf, ha⟩ := Term.closed_app.mp hjob
    exact ihr ⟨ihf hf rfl, iha ha rfl⟩ hr
  | beta _ ih => exact ih hjob.beta hr
  | pair _ _ iha ihb =>
    cases hr
    obtain ⟨ha, hb⟩ := Term.closed_pair.mp hjob
    exact (Term.isClosedValue_pair _ _).mpr ⟨iha ha rfl, ihb hb rfl⟩
  | fst _ ih =>
    cases hr
    exact ((Term.isClosedValue_pair _ _).mp (ih hjob rfl)).1
  | snd _ ih =>
    cases hr
    exact ((Term.isClosedValue_pair _ _).mp (ih hjob rfl)).2
  | condTrue _ _ _ ih =>
    obtain ⟨-, ht, -⟩ := Term.closed_cond.mp hjob
    exact ih ht hr
  | condFalse _ _ _ ih =>
    obtain ⟨-, -, he⟩ := Term.closed_cond.mp hjob
    exact ih he hr
  | succ _ ih =>
    cases hr
    exact (Term.isClosedValue_succ _).mpr (ih hjob rfl)
  | natRec _ _ _ _ _ ihs ihb ihr =>
    obtain ⟨hb, hs, -⟩ := Term.closed_natRec.mp hjob
    exact ihr ⟨ihb hb rfl, ihs hs rfl⟩ hr
  | iterateZero =>
    cases hr
    exact hjob.1
  | iterateSucc _ _ _ ihv ihf ihr =>
    exact ihr ⟨ihf ⟨hjob.2, Term.isClosedValue_numeral _⟩ rfl, ihv hjob rfl⟩ hr

end Evaluation

end SystemT
