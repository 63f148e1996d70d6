import SystemT.Proofs.Evaluation.Rules
import SystemT.Proofs.Term.Expansion

/-!
# Evaluation does not look at constants

A constant is stuck, whatever its name. If constants are renamed in a job, also two of them to one
name, then what the job yields is renamed and nothing else changes (`Yields.substConsts`): no rule
compares constants, and renaming turns no term into a value that was none.
-/

namespace SystemT

/-- The map puts constants for constants. -/
def ConstSubst.Renames (s : ConstSubst) (f : Ident → Ident) : Prop := ∀ x, s.image x = .fvar (f x)

theorem ConstSubst.Renames.closed {s : ConstSubst} {f : Ident → Ident} (hs : s.Renames f) :
    s.Closed := by
  intro x d hx
  have hd : d = .fvar (f x) := by
    rw [← hs x, image, hx]
    rfl
  rw [hd]
  rfl

namespace Term

variable {s : ConstSubst} {f : Ident → Ident}

/-! ## Shapes -/

theorem substConsts_numeral (s : ConstSubst) (n : Nat) :
    (numeral n).substConsts s = numeral n := by
  induction n with
  | zero => rfl
  | succ n ih => rw [numeral_succ, substConsts_succ, ih]

theorem substConsts_fvar_of_renames (hs : s.Renames f) (x : Ident) :
    (fvar x).substConsts s = fvar (f x) := hs x

theorem substConsts_eq_lam (hs : s.Renames f) {t b : Term} (h : t.substConsts s = .lam b) :
    ∃ c, t = .lam c := by
  cases t with
  | fvar x =>
    rw [substConsts_fvar_of_renames hs] at h
    cases h
  | succ t =>
    rw [substConsts_succ] at h
    cases h
  | lam c => exact ⟨c, rfl⟩
  | _ => cases h

theorem substConsts_eq_pair (hs : s.Renames f) {t a b : Term} (h : t.substConsts s = .pair a b) :
    ∃ c d, t = .pair c d := by
  cases t with
  | fvar x =>
    rw [substConsts_fvar_of_renames hs] at h
    cases h
  | succ t =>
    rw [substConsts_succ] at h
    cases h
  | pair c d => exact ⟨c, d, rfl⟩
  | _ => cases h

/-- No term but the constructor itself is renamed to a constructor without arguments. -/
theorem substConsts_eq_leaf (hs : s.Renames f) {t u : Term} (hu : u = .tt ∨ u = .ff ∨ u = .zero)
    (h : t.substConsts s = u) : t = u := by
  cases t with
  | fvar x =>
    rw [substConsts_fvar_of_renames hs] at h
    rcases hu with rfl | rfl | rfl <;> cases h
  | succ t =>
    rw [substConsts_succ] at h
    rcases hu with rfl | rfl | rfl <;> cases h
  | tt | ff | zero => exact h
  | _ => rcases hu with rfl | rfl | rfl <;> cases h

theorem substConsts_eq_numeral (hs : s.Renames f) {t : Term} {n : Nat}
    (h : t.substConsts s = numeral n) : t = numeral n := by
  induction n generalizing t with
  | zero => exact substConsts_eq_leaf hs (.inr (.inr rfl)) h
  | succ n ih =>
    rw [numeral_succ] at h ⊢
    cases t with
    | fvar x =>
      rw [substConsts_fvar_of_renames hs] at h
      cases h
    | succ u =>
      rw [substConsts_succ] at h
      rw [ih (succ.inj h)]
    | _ => cases h

end Term

/-- Rename constants in an evaluation error. -/
def EvalError.substConsts (s : ConstSubst) (f : Ident → Ident) : EvalError → EvalError
  | openTerm i => openTerm i
  | unresolved x => unresolved (f x)
  | notFunction t => notFunction (t.substConsts s)
  | notBool t => notBool (t.substConsts s)
  | notNat t => notNat (t.substConsts s)
  | notPair t => notPair (t.substConsts s)

namespace Evaluation

/-- Rename constants in a job. -/
def Job.substConsts (s : ConstSubst) : Job → Job
  | term t => term (t.substConsts s)
  | apply f a => apply (f.substConsts s) (a.substConsts s)
  | iterate base step n => iterate (base.substConsts s) (step.substConsts s) n

/-- Rename constants in what a job yields. -/
def substConstsIn (s : ConstSubst) (f : Ident → Ident) :
    Except EvalError Term → Except EvalError Term
  | .ok v => .ok (v.substConsts s)
  | .error e => .error (e.substConsts s f)

/-- **Evaluation commutes with renaming constants.** -/
theorem Yields.substConsts {s : ConstSubst} {f : Ident → Ident} (hs : s.Renames f) {job : Job}
    {r : Except EvalError Term} (h : Yields job r) :
    Yields (job.substConsts s) (substConstsIn s f r) := by
  induction h with
  | @fvar x =>
    show Yields (.term (s.image x)) (.error (.unresolved (f x)))
    rw [hs x]
    exact .fvar
  | bvar => exact .bvar
  | lam => exact .lam
  | tt => exact .tt
  | ff => exact .ff
  | zero => exact .zero
  | appFn _ ih => exact .appFn ih
  | appArg _ _ ihf iha => exact .appArg ihf iha
  | app _ _ _ ihf iha ihr => exact .app ihf iha ihr
  | @beta b a _ _ ih =>
    have hbody : ((b.subst 0 a).substConsts s) = (b.substConsts s).subst 0 (a.substConsts s) :=
      Term.substConsts_subst_of_closed hs.closed b 0 a
    rw [Job.substConsts, hbody] at ih
    rw [Job.substConsts, Term.substConsts_lam, hs.closed.lift_eq]
    exact .beta ih
  | notFunction hf =>
    refine .notFunction fun b hb => ?_
    obtain ⟨c, rfl⟩ := Term.substConsts_eq_lam hs hb
    exact hf c rfl
  | pairFst _ ih => exact .pairFst ih
  | pairSnd _ _ iha ihb => exact .pairSnd iha ihb
  | pair _ _ iha ihb => exact .pair iha ihb
  | fstOf _ ih => exact .fstOf ih
  | fst _ ih => exact .fst ih
  | fstNotPair _ hv ih =>
    refine .fstNotPair ih fun a b hab => ?_
    obtain ⟨c, d, rfl⟩ := Term.substConsts_eq_pair hs hab
    exact hv c d rfl
  | sndOf _ ih => exact .sndOf ih
  | snd _ ih => exact .snd ih
  | sndNotPair _ hv ih =>
    refine .sndNotPair ih fun a b hab => ?_
    obtain ⟨c, d, rfl⟩ := Term.substConsts_eq_pair hs hab
    exact hv c d rfl
  | condOf _ ih => exact .condOf ih
  | condTrue _ _ ihc ih => exact .condTrue ihc ih
  | condFalse _ _ ihc ih => exact .condFalse ihc ih
  | condNotBool _ htt hff ih =>
    exact .condNotBool ih (fun h => htt (Term.substConsts_eq_leaf hs (.inl rfl) h))
      (fun h => hff (Term.substConsts_eq_leaf hs (.inr (.inl rfl)) h))
  | succOf _ ih =>
    rw [Job.substConsts, Term.substConsts_succ]
    exact .succOf ih
  | succ _ ih =>
    rw [Job.substConsts, substConstsIn, Term.substConsts_succ, Term.substConsts_succ]
    exact .succ ih
  | recScrutinee _ ih => exact .recScrutinee ih
  | recNotNat _ hv ih =>
    exact .recNotNat ih fun k hk => hv k (Term.substConsts_eq_numeral hs hk)
  | recStep _ _ ihn ihs =>
    rw [substConstsIn, Term.substConsts_numeral] at ihn
    exact .recStep ihn ihs
  | recBase _ _ _ ihn ihs ihb =>
    rw [substConstsIn, Term.substConsts_numeral] at ihn
    exact .recBase ihn ihs ihb
  | natRec _ _ _ _ ihn ihs ihb ihr =>
    rw [substConstsIn, Term.substConsts_numeral] at ihn
    exact .natRec ihn ihs ihb ihr
  | iterateZero => exact .iterateZero
  | iterateBelow _ ih => exact .iterateBelow ih
  | iteratePred _ _ ihv ihf =>
    rw [Job.substConsts, Term.substConsts_numeral] at ihf
    exact .iteratePred ihv ihf
  | iterateSucc _ _ _ ihv ihf ihr =>
    rw [Job.substConsts, Term.substConsts_numeral] at ihf
    exact .iterateSucc ihv ihf ihr

end Evaluation

end SystemT
