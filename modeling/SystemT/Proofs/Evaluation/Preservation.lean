import SystemT.Proofs.Evaluation.Agreement
import SystemT.Proofs.Inference.Principal

/-!
# Evaluation preserves types

What a typed term yields has the type of the term (`Yields.typed`), also where constants that are
left unevaluated stand below a binder of the value. From the type alone the shape of the value can
be told (`Typing.canonical`): a numeral at `nat`, a truth value at `bool`, an abstraction at a
function type, a pair at a product, and nothing at all at a type variable.

The value may have more types than the term, as a branch that was not taken no longer restricts it.
Type reconstruction therefore finds for the value a type of which that of the term is an instance
(`Term.typeCheck_of_tryEvaluate`). It may need more variables for the value than for the term,
because an argument was put in several times; should these not suffice, that is the only way in
which it can fail.
-/

namespace SystemT

variable {const : Ident → Ty → Prop}

/-! ## Canonical forms -/

theorem typing_numeral {Γ : List Ty} (n : Nat) : Typing const Γ (.numeral n) .nat := by
  induction n with
  | zero => exact .zero
  | succ n ih =>
    rw [Term.numeral_succ]
    exact .succ ih

/-- The values that a type has, up to what functions do. -/
def Term.Canonical (v : Term) : Ty → Prop
  | .nat => ∃ n, v.asNumeral? = some n
  | .bool => v = .tt ∨ v = .ff
  | .var _ => False
  | .arrow _ _ => ∃ b, v = .lam b
  | .prod A B => ∃ a b, v = .pair a b ∧ a.Canonical A ∧ b.Canonical B

/-- A typed value is one of those that its type has. -/
theorem Typing.canonical {Γ : List Ty} {v : Term} {A : Ty} (h : Typing const Γ v A)
    (hv : v.isValue = true) : v.Canonical A := by
  induction h with
  | lam => exact ⟨_, rfl⟩
  | pair _ _ iha ihb =>
    simp only [Term.isValue, Bool.and_eq_true] at hv
    exact ⟨_, _, rfl, iha hv.1, ihb hv.2⟩
  | tt => exact .inl rfl
  | ff => exact .inr rfl
  | zero => exact ⟨0, rfl⟩
  | @succ _ t _ ih =>
    obtain ⟨n, hn⟩ := ih hv
    obtain rfl := (Term.asNumeral?_eq_some_iff t n).mp hn
    exact ⟨n + 1, (Term.asNumeral?_eq_some_iff _ _).mpr (Term.numeral_succ n).symm⟩
  | bvar | fvar | app | fst | snd | cond | natRec => cases hv

namespace Evaluation

/-! ## Preservation -/

/-- A job without free indices, which a value of type `A` is expected from. -/
def Job.Typed (const : Ident → Ty → Prop) (A : Ty) : Job → Prop
  | term t => Typing const [] t A
  | apply f a => ∃ B, Typing const [] f (.arrow B A) ∧ Typing const [] a B
  | iterate b s _ => Typing const [] b A ∧ Typing const [] s (.arrow .nat (.arrow A A))

theorem Job.Typed.beta {b a : Term} {A : Ty} (h : (Job.apply (.lam b) a).Typed const A) :
    (Job.term (b.subst 0 a)).Typed const A := by
  obtain ⟨B, hf, ha⟩ := h
  exact (Typing.app hf ha).contract

/-- **What a job yields has the type that is expected from it.** -/
theorem Yields.typed {job : Job} {v : Term} {A : Ty} (h : Yields job (.ok v))
    (hjob : job.Typed const A) : Typing const [] v A := by
  generalize hr : Except.ok v = r at h
  -- the rules that yield errors say nothing about values
  induction h generalizing v A with
  | fvar | bvar | appFn | appArg | notFunction | pairFst | pairSnd | fstOf | fstNotPair | sndOf
  | sndNotPair | condOf | condNotBool | succOf | recScrutinee | recNotNat | recStep | recBase
  | iterateBelow | iteratePred => cases hr
  | lam | tt | ff | zero =>
    cases hr
    exact hjob
  | app _ _ _ ihf iha ihr =>
    cases hjob with
    | app hf ha => exact ihr ⟨_, ihf hf rfl, iha ha rfl⟩ hr
  | beta _ ih => exact ih hjob.beta hr
  | pair _ _ iha ihb =>
    cases hr
    cases hjob with
    | pair ha hb => exact .pair (iha ha rfl) (ihb hb rfl)
  | fst _ ih =>
    cases hr
    cases hjob with
    | fst hp =>
      cases ih hp rfl with
      | pair ha _ => exact ha
  | snd _ ih =>
    cases hr
    cases hjob with
    | snd hp =>
      cases ih hp rfl with
      | pair _ hb => exact hb
  | condTrue _ _ _ ih =>
    cases hjob with
    | cond _ ht _ => exact ih ht hr
  | condFalse _ _ _ ih =>
    cases hjob with
    | cond _ _ he => exact ih he hr
  | succ _ ih =>
    cases hr
    cases hjob with
    | succ ht => exact .succ (ih ht rfl)
  | natRec _ _ _ _ _ ihs ihb ihr =>
    cases hjob with
    | natRec hb hs _ => exact ihr ⟨ihb hb rfl, ihs hs rfl⟩ hr
  | iterateZero =>
    cases hr
    exact hjob.1
  | @iterateSucc _ _ _ _ k _ _ _ _ ihv ihf ihr =>
    -- the value one step below has the type of the base, hence so does the next one
    have hv := ihv hjob rfl
    have hf := ihf ⟨.nat, hjob.2, typing_numeral k⟩ rfl
    exact ihr ⟨_, hf, hv⟩ hr

end Evaluation

/-! ## Types found for values -/

namespace Term

open Evaluation in
/-- **Evaluation preserves types and leads to canonical values.** If a term type checks, without
bound slots but with any declarations, and evaluation finds a value, then the value is one of those
that the type has, and it type checks itself: the type of the term is an instance of the type that
is found for the value, under a substitution that leaves the declarations alone. The one exception
is that the variables may not suffice to find a type for the value. -/
theorem typeCheck_of_tryEvaluate {Γ : Context} {t v : Term} {r : Inferred} {fuel : Nat}
    (hΓ : Γ.bound = []) (ht : typeCheck t Γ = .ok r) (hv : t.tryEvaluate fuel = .ok v) :
    ((∃ r', typeCheck v Γ = .ok r' ∧
        ∃ ρ : Subst, ρ.Fixes Γ.declaredVars ∧ ρ.apply r'.ty = r.ty) ∨
      (typeCheck v Γ = .error (.fault .counterOverflow) ∧ Γ.Exhausts v)) ∧
    v.Canonical r.ty := by
  have htyped := typing_of_typeCheck hΓ ht
  have hclosed : t.closed = true := htyped.closedAt
  have hyields : Yields (.term t) (.ok v) := by
    rw [tryEvaluate_of_closed hclosed] at hv
    exact (agrees_eval closedValue_sound fuel t [] [] hclosed closedValues_nil).yields hv
  have hvalue : v.isValue = true := ((isClosedValue_iff v).mp (hyields.isClosedValue hclosed)).1
  have hvtyped := hyields.typed htyped
  constructor
  · have htypes : Γ.Types v r.ty := by
      rw [Context.Types, hΓ]
      exact hvtyped
    exact typeCheck_of_types htypes
  · exact hvtyped.canonical hvalue

/-- The branch that is taken has more types than the other one leaves to it: the type of its first
part is found to be `?0 → ?0`, of which `nat → nat` is an instance. The constant stays unevaluated
below its binder. -/
theorem typeCheck_of_tryEvaluate_branch :
    ∃ Γ : Context, Γ = ⟨[],
        (∅ : IdentMap Ty).insert (.named "c") (.arrow (.var (.named "R")) .nat)⟩ ∧
      ∃ v, v = Term.pair (.lam (.bvar 0)) (.lam (.app (.fvar (.named "c")) (.bvar 0))) ∧
      ∃ t, t = Term.cond .tt v (.pair (.lam (.succ (.bvar 0))) (.lam .zero)) ∧
      ∃ r, typeCheck t Γ = .ok r ∧
      r.ty = .prod (.arrow .nat .nat) (.arrow (.var (.named "R")) .nat) ∧
      t.tryEvaluate 9 = .ok v ∧
      ((∃ r', typeCheck v Γ = .ok r' ∧
          ∃ ρ : Subst, ρ.Fixes Γ.declaredVars ∧ ρ.apply r'.ty = r.ty) ∨
        (typeCheck v Γ = .error (.fault .counterOverflow) ∧ Γ.Exhausts v)) ∧
      v.Canonical r.ty := by
  refine ⟨_, rfl, _, rfl, _, rfl, ?_⟩
  generalize hΓ : (⟨[], (∅ : IdentMap Ty).insert (.named "c")
    (.arrow (.var (.named "R")) .nat)⟩ : Context) = Γ
  generalize hv : Term.pair (.lam (.bvar 0)) (.lam (.app (.fvar (.named "c")) (.bvar 0))) = v
  have hcheck : (typeCheck (.cond .tt v (.pair (.lam (.succ (.bvar 0))) (.lam .zero))) Γ).map
      Inferred.ty = .ok (.prod (.arrow .nat .nat) (.arrow (.var (.named "R")) .nat)) := by
    subst Γ v
    rw [typeCheck_eq]
    cbv
  have heval : (Term.cond .tt v (.pair (.lam (.succ (.bvar 0))) (.lam .zero))).tryEvaluate 9 =
      .ok v := by
    subst v
    rfl
  cases ht : typeCheck (.cond .tt v (.pair (.lam (.succ (.bvar 0))) (.lam .zero))) Γ with
  | error e =>
    rw [ht] at hcheck
    cases hcheck
  | ok r =>
    rw [ht] at hcheck
    have hty := Except.ok.inj hcheck
    have hbound : Γ.bound = [] := by
      subst Γ
      rfl
    exact ⟨r, rfl, hty, heval, typeCheck_of_tryEvaluate hbound ht heval⟩

/-- A type variable of a declaration leaves five numbers for new variables, as many as are needed
for three identities that a function makes a pair of; the pair holds six of them. -/
theorem typeCheck_value_exhausts :
    ∃ Γ : Context, Γ = ⟨[], (∅ : IdentMap Ty).insert (.named "c") (.var (.fresh 4294967289))⟩ ∧
      ∃ ids, ids = Term.pair (.lam (.bvar 0)) (.pair (.lam (.bvar 0)) (.lam (.bvar 0))) ∧
      ∃ t, t = Term.app (.lam (.pair (.bvar 0) (.bvar 0))) ids ∧
      (∃ r, typeCheck t Γ = .ok r) ∧ t.tryEvaluate 9 = .ok (.pair ids ids) ∧
      typeCheck (.pair ids ids) Γ = .error (.fault .counterOverflow) ∧
      ¬ ∀ (Γ : Context) (t v : Term) (r : Inferred) (fuel : Nat), Γ.bound = [] →
        typeCheck t Γ = .ok r → t.tryEvaluate fuel = .ok v → ∃ r', typeCheck v Γ = .ok r' := by
  refine ⟨_, rfl, _, rfl, _, rfl, ?_⟩
  generalize hΓ : (⟨[], (∅ : IdentMap Ty).insert (.named "c")
    (.var (.fresh 4294967289))⟩ : Context) = Γ
  generalize hids : Term.pair (.lam (.bvar 0)) (.pair (.lam (.bvar 0)) (.lam (.bvar 0))) = ids
  have hvars : Γ.vars.toList = [.fresh 4294967289] := by
    subst Γ
    cbv
  have hcheck : ∃ r, typeCheck (.app (.lam (.pair (.bvar 0) (.bvar 0))) ids) Γ = .ok r := by
    have htyped : Γ.Types ids (.prod (.arrow .nat .nat) (.prod (.arrow .nat .nat)
        (.arrow .nat .nat))) := by
      subst ids
      exact .pair (.lam (.bvar rfl)) (.pair (.lam (.bvar rfl)) (.lam (.bvar rfl)))
    have happ : Γ.Types (.app (.lam (.pair (.bvar 0) (.bvar 0))) ids) _ :=
      .app (.lam (.pair (.bvar rfl) (.bvar rfl))) htyped
    rcases typeCheck_of_types happ with
      ⟨r, hr, -⟩ | ⟨-, hlimit | ⟨n, hn, hlimit⟩⟩
    · exact ⟨r, hr⟩
    · subst ids
      exact absurd hlimit (by decide)
    · have hn : Ident.fresh n ∈ Γ.vars.toList := Std.ExtTreeSet.mem_toList.mpr hn
      rw [hvars] at hn
      obtain rfl : n = 4294967289 := by simpa using hn
      subst ids
      exact absurd hlimit (by decide)
  have heval : (Term.app (.lam (.pair (.bvar 0) (.bvar 0))) ids).tryEvaluate 9 =
      .ok (.pair ids ids) := by
    subst ids
    rfl
  have hfault : typeCheck (.pair ids ids) Γ = .error (.fault .counterOverflow) := by
    subst Γ ids
    rw [typeCheck_eq]
    cbv
  refine ⟨hcheck, heval, hfault, fun hall => ?_⟩
  obtain ⟨r, hr⟩ := hcheck
  have hbound : Γ.bound = [] := by
    subst Γ
    rfl
  obtain ⟨r', hr'⟩ := hall Γ _ _ r 9 hbound hr heval
  rw [hfault] at hr'
  cases hr'

end Term

end SystemT
