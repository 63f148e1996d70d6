import SystemT.Proofs.Evaluation.Agreement
import SystemT.Proofs.Inference.Checker

/-!
# Typed terms evaluate

Evaluation recurses on what a function body becomes, which is no smaller term, and a recursion is
unrolled as far as its scrutinee says. That it ends all the same follows from the types. A value is
reducible at a type (`Reducible`) if it has the shape that the type asks for and, for a function,
the body yields a reducible value for every reducible argument. Every typed term under a closing
substitution of reducible values yields a reducible value (`Typing.computes`).

Constants without a definition get in the way of that and nothing else does. Which constants these
may be is a parameter, `stuck`: where a result is to be a value, evaluation may instead come to a
stuck constant (`Good`). A constant may be used at several types, as stuckness does not look at
these.

For a term that type checks without any declarations there is none, so that it evaluates
(`Term.evaluates_of_typeCheck`).
-/

namespace SystemT

namespace Evaluation

variable {stuck : Ident → Prop}

/-! ## Reducibility -/

/-- A value in `P`, or the error that a constant in `stuck` has no definition. -/
inductive Good (stuck : Ident → Prop) (P : Term → Prop) : Except EvalError Term → Prop where
  | ok {v : Term} (h : P v) : Good stuck P (.ok v)
  | unresolved {x : Ident} (h : stuck x) : Good stuck P (.error (.unresolved x))

/-- The job ends, with a good result. -/
def Computes (stuck : Ident → Prop) (P : Term → Prop) (job : Job) : Prop :=
  ∃ r, Yields job r ∧ Good stuck P r

/-- Values that are used in no way that their type does not allow. -/
def Reducible (stuck : Ident → Prop) : Ty → Term → Prop
  | .nat, v => ∃ n, v = .numeral n
  | .bool, v => v = .tt ∨ v = .ff
  | .var _, _ => False
  | .arrow A B, v => v.closed = true ∧ ∃ b, v = .lam b ∧
      ∀ a, Reducible stuck A a → Computes stuck (Reducible stuck B) (.term (b.subst 0 a))
  | .prod A B, v => ∃ a b, v = .pair a b ∧ Reducible stuck A a ∧ Reducible stuck B b

theorem Reducible.isClosedValue {A : Ty} {v : Term} (h : Reducible stuck A v) :
    v.isClosedValue = true := by
  induction A generalizing v with
  | nat =>
    obtain ⟨n, rfl⟩ := h
    exact Term.isClosedValue_numeral n
  | bool =>
    rcases h with rfl | rfl
    · rfl
    · rfl
  | var x => exact absurd h id
  | arrow A B _ _ =>
    obtain ⟨hclosed, b, rfl, -⟩ := h
    exact Term.isClosedValue_lam hclosed
  | prod A B iha ihb =>
    obtain ⟨a, b, rfl, ha, hb⟩ := h
    exact (Term.isClosedValue_pair a b).mpr ⟨iha ha, ihb hb⟩

theorem Reducible.closed {A : Ty} {v : Term} (h : Reducible stuck A v) : v.closed = true :=
  Term.closed_of_isClosedValue h.isClosedValue

/-- A job whose first part is another job: if that part is stuck so is the whole, and its value is
gone on with. -/
theorem Computes.bind {P Q : Term → Prop} {job job' : Job} (h : Computes stuck P job)
    (herror : ∀ e, Yields job (.error e) → Yields job' (.error e))
    (hok : ∀ v, Yields job (.ok v) → P v → Computes stuck Q job') : Computes stuck Q job' := by
  obtain ⟨r, hr, hgood⟩ := h
  cases hgood with
  | ok hv => exact hok _ hr hv
  | unresolved hx => exact ⟨_, herror _ hr, .unresolved hx⟩

theorem Computes.imp {P : Term → Prop} {job job' : Job} (h : Computes stuck P job)
    (himp : ∀ r, Yields job r → Yields job' r) : Computes stuck P job' := by
  obtain ⟨r, hr, hgood⟩ := h
  exact ⟨r, himp r hr, hgood⟩

theorem Reducible.apply {A B : Ty} {f a : Term} (hf : Reducible stuck (.arrow A B) f)
    (ha : Reducible stuck A a) : Computes stuck (Reducible stuck B) (.apply f a) := by
  obtain ⟨-, b, rfl, hb⟩ := hf
  exact (hb a ha).imp fun r hr => .beta hr

/-- Recursion with a reducible step ends at every number. -/
theorem Reducible.iterate {A : Ty} {b s : Term} (hb : Reducible stuck A b)
    (hs : Reducible stuck (.arrow .nat (.arrow A A)) s) (n : Nat) :
    Computes stuck (Reducible stuck A) (.iterate b s n) := by
  induction n with
  | zero => exact ⟨_, .iterateZero, .ok hb⟩
  | succ n ih =>
    refine ih.bind (fun e he => .iterateBelow he) fun v hyield hv => ?_
    refine (hs.apply ⟨n, rfl⟩).bind (fun e he => .iteratePred hyield he) fun f hyield' hf => ?_
    exact (hf.apply hv).imp fun r hr => .iterateSucc hyield hyield' hr

/-! ## Typed terms -/

/-- Reducible values for the bound variables of a context. -/
inductive Closing (stuck : Ident → Prop) : List Ty → List Term → Prop where
  | nil : Closing stuck [] []
  | cons {A : Ty} {Γ : List Ty} {v : Term} {vs : List Term} (hv : Reducible stuck A v)
      (hvs : Closing stuck Γ vs) : Closing stuck (A :: Γ) (v :: vs)

theorem Closing.closed {Γ : List Ty} {vs : List Term} (h : Closing stuck Γ vs) :
    ∀ v ∈ vs, v.closed = true := by
  induction h with
  | nil => exact fun _ hv => nomatch hv
  | cons hv _ ih =>
    intro u hu
    rcases List.mem_cons.mp hu with rfl | hu
    · exact hv.closed
    · exact ih u hu

theorem Closing.length_eq {Γ : List Ty} {vs : List Term} (h : Closing stuck Γ vs) :
    vs.length = Γ.length := by
  induction h with
  | nil => rfl
  | cons _ _ ih => exact congrArg Nat.succ ih

theorem Closing.get? {Γ : List Ty} {vs : List Term} (h : Closing stuck Γ vs) {i : Nat} {A : Ty}
    (hi : Γ[i]? = some A) : ∃ v, vs[i]? = some v ∧ Reducible stuck A v := by
  induction h generalizing i with
  | nil => cases hi
  | @cons B Γ v vs hv _ ih =>
    cases i with
    | zero =>
      obtain rfl : B = A := by simpa using hi
      exact ⟨v, rfl, hv⟩
    | succ i => exact ih hi

/-- **Typed terms evaluate.** Under reducible values for its variables, a typed term yields a
reducible value or gets stuck. -/
theorem computes_of_typing {const : Ident → Ty → Prop} (hconst : ∀ x B, const x B → stuck x)
    {Γ : List Ty} {t : Term} {A : Ty} (h : Typing const Γ t A) {vs : List Term}
    (hvs : Closing stuck Γ vs) :
    Computes stuck (Reducible stuck A) (.term (t.instantiate 0 vs)) := by
  -- no fuel is in play: reducibility at a function type says already that applications end
  induction h generalizing vs with
  | bvar hi =>
    obtain ⟨v, hv, hred⟩ := hvs.get? hi
    rw [Term.instantiate_bvar hvs.closed hv]
    have hvalue := (Term.isClosedValue_iff v).mp hred.isClosedValue
    exact ⟨_, yields_of_isValue hvalue.1, .ok hred⟩
  | @fvar _ x _ hx =>
    rw [Term.instantiate_of_closed hvs.closed rfl]
    exact ⟨_, .fvar, .unresolved (hconst x _ hx)⟩
  | @lam Γ b A B hb ih =>
    have hclosed : ((Term.lam b).instantiate 0 vs).closed = true := by
      refine Term.closedAt_instantiate hvs.closed ?_ (Nat.le_refl 0)
      rw [hvs.length_eq, Nat.zero_add]
      exact (Typing.lam hb).closedAt
    rw [Term.instantiate_lam hvs.closed] at hclosed ⊢
    refine ⟨_, .lam, .ok ⟨hclosed, _, rfl, fun a ha => ?_⟩⟩
    -- opening the binder with `a` extends the closing substitution by `a`
    rw [Term.subst_instantiate hvs.closed b 0 ha.closed]
    exact ih (.cons ha hvs)
  | app _ _ ihf iha =>
    rw [Term.instantiate_app]
    refine (ihf hvs).bind (fun e he => .appFn he) fun f hf hfred => ?_
    refine (iha hvs).bind (fun e he => .appArg hf he) fun a ha hared => ?_
    exact (hfred.apply hared).imp fun r hr => .app hf ha hr
  | pair _ _ iha ihb =>
    rw [Term.instantiate_pair]
    refine (iha hvs).bind (fun e he => .pairFst he) fun a ha hared => ?_
    refine (ihb hvs).bind (fun e he => .pairSnd ha he) fun b hb hbred => ?_
    exact ⟨_, .pair ha hb, .ok ⟨a, b, rfl, hared, hbred⟩⟩
  | fst _ ih =>
    rw [Term.instantiate_fst]
    refine (ih hvs).bind (fun e he => .fstOf he) fun v hv hred => ?_
    obtain ⟨a, b, rfl, ha, -⟩ := hred
    exact ⟨_, .fst hv, .ok ha⟩
  | snd _ ih =>
    rw [Term.instantiate_snd]
    refine (ih hvs).bind (fun e he => .sndOf he) fun v hv hred => ?_
    obtain ⟨a, b, rfl, -, hb⟩ := hred
    exact ⟨_, .snd hv, .ok hb⟩
  | tt =>
    rw [Term.instantiate_of_closed hvs.closed rfl]
    exact ⟨_, .tt, .ok (.inl rfl)⟩
  | ff =>
    rw [Term.instantiate_of_closed hvs.closed rfl]
    exact ⟨_, .ff, .ok (.inr rfl)⟩
  | cond _ _ _ ihc iht ihe =>
    rw [Term.instantiate_cond]
    refine (ihc hvs).bind (fun e he => .condOf he) fun c hc hred => ?_
    rcases hred with rfl | rfl
    · exact (iht hvs).imp fun r hr => .condTrue hc hr
    · exact (ihe hvs).imp fun r hr => .condFalse hc hr
  | zero =>
    rw [Term.instantiate_of_closed hvs.closed rfl]
    exact ⟨_, .zero, .ok ⟨0, rfl⟩⟩
  | succ _ ih =>
    rw [Term.instantiate_succ]
    refine (ih hvs).bind (fun e he => .succOf he) fun v hv hred => ?_
    obtain ⟨n, rfl⟩ := hred
    exact ⟨_, .succ hv, .ok ⟨n + 1, (Term.numeral_succ n).symm⟩⟩
  | natRec _ _ _ ihb ihs ihn =>
    rw [Term.instantiate_natRec]
    refine (ihn hvs).bind (fun e he => .recScrutinee he) fun n hn hnred => ?_
    -- a reducible scrutinee is a numeral, so that the recursion goes up to a known height
    obtain ⟨k, rfl⟩ := hnred
    refine (ihs hvs).bind (fun e he => .recStep hn he) fun s hs hsred => ?_
    refine (ihb hvs).bind (fun e he => .recBase hn hs he) fun b hb hbred => ?_
    exact (hbred.iterate hsred k).imp fun r hr => .natRec hn hs hb hr

/-- Without bound variables there is nothing to close. -/
theorem computes_of_typing_nil {const : Ident → Ty → Prop} (hconst : ∀ x B, const x B → stuck x)
    {t : Term} {A : Ty} (h : Typing const [] t A) :
    Computes stuck (Reducible stuck A) (.term t) :=
  computes_of_typing hconst h .nil

/-- A closed term whose evaluation ends: large amounts of fuel lead to its result, and no amount
leads to another one. -/
theorem Computes.tryEvaluate {P : Term → Prop} {t : Term} (h : Computes stuck P (.term t))
    (ht : t.closed = true) :
    ∃ r, Yields (.term t) r ∧ Good stuck P r ∧ Settles t.tryEvaluate r ∧
      ∀ fuel, t.tryEvaluate fuel = finished r ∨
        t.tryEvaluate fuel = .error (.fault .outOfFuel) := by
  obtain ⟨r, hr, hgood⟩ := h
  rw [tryEvaluate_of_closed ht]
  exact ⟨r, hr, hgood, hr.settles closedValue_sound ht closedValues_nil,
    hr.eval_eq closedValue_sound ht closedValues_nil⟩

end Evaluation

open Evaluation in
/-- **A term that type checks evaluates.** Without declarations, evaluation of such a term ends with
a value, the one that the rules of call by value yield, for all large amounts of fuel; smaller ones
lead to that value too or run out. So no evaluation error is ever raised, and the promise that
`Term.evaluate` relies on is kept. -/
theorem Term.evaluates_of_typeCheck {t : Term} {r : Inferred}
    (h : typeCheck t .empty = .ok r) :
    ∃ v, Yields (.term t) (.ok v) ∧ v.isClosedValue = true ∧
      (∃ enough, ∀ fuel, enough ≤ fuel → t.tryEvaluate fuel = .ok v ∧ t.evaluate fuel = .ok v) ∧
      ∀ fuel, (t.tryEvaluate fuel = .ok v ∧ t.evaluate fuel = .ok v) ∨
        (t.tryEvaluate fuel = .error (.fault .outOfFuel) ∧
          t.evaluate fuel = .error (.fault .outOfFuel)) := by
  have htyped : Typing (fun x B => Context.empty.lookup? x = some B) [] t r.ty :=
    typeCheck_sound h
  -- nothing is declared, so that nothing can get stuck
  have hnone : ∀ x B, Context.empty.lookup? x = some B → False := by
    intro x B hx
    rw [Context.lookup?_empty] at hx
    cases hx
  have hcomputes := computes_of_typing_nil hnone htyped
  obtain ⟨_, hyields, hgood, ⟨enough, hsettles⟩, hall⟩ := hcomputes.tryEvaluate htyped.closedAt
  cases hgood with
  | unresolved hx => exact absurd hx id
  | @ok v hv =>
    refine ⟨v, hyields, hv.isClosedValue, ⟨enough, fun fuel hfuel => ?_⟩, fun fuel => ?_⟩
    · have hv : t.tryEvaluate fuel = .ok v := hsettles fuel hfuel
      refine ⟨hv, ?_⟩
      rw [Term.evaluate, hv]
      rfl
    · rcases hall fuel with hv | hout
      · refine .inl ⟨hv, ?_⟩
        rw [Term.evaluate, hv]
        rfl
      · refine .inr ⟨hout, ?_⟩
        rw [Term.evaluate, hout]
        rfl

open Evaluation in
/-- Doubling by recursion, applied to three. -/
theorem Term.evaluates_of_typeCheck_double :
    ∃ t, t = Term.app (.lam (.natRec .zero (.lam (.lam (.succ (.succ (.bvar 0))))) (.bvar 0)))
        (.numeral 3) ∧
      (∃ r, typeCheck t .empty = .ok r) ∧
      ∃ v, Yields (.term t) (.ok v) ∧ v.isClosedValue = true ∧
        (∃ enough, ∀ fuel, enough ≤ fuel →
          t.tryEvaluate fuel = .ok v ∧ t.evaluate fuel = .ok v) ∧
        ∀ fuel, (t.tryEvaluate fuel = .ok v ∧ t.evaluate fuel = .ok v) ∨
          (t.tryEvaluate fuel = .error (.fault .outOfFuel) ∧
            t.evaluate fuel = .error (.fault .outOfFuel)) := by
  refine ⟨_, rfl, ?_⟩
  have hcheck : (typeCheck (.app (.lam (.natRec .zero (.lam (.lam (.succ (.succ (.bvar 0)))))
      (.bvar 0))) (.numeral 3)) .empty).isOk = true := by
    rw [typeCheck_eq]
    cbv
  cases h : typeCheck (.app (.lam (.natRec .zero (.lam (.lam (.succ (.succ (.bvar 0)))))
      (.bvar 0))) (.numeral 3)) .empty with
  | error e =>
    rw [h] at hcheck
    cases hcheck
  | ok r => exact ⟨⟨r, rfl⟩, evaluates_of_typeCheck h⟩

end SystemT
