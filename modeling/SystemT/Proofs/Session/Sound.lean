import SystemT.Proofs.Evaluation.Termination
import SystemT.Session

/-!
# Sessions are sound

After a constant was declared anew, at another type, definitions from before still use it at its old
type, so that what a session has stored need not be typed in any one context. What is kept
(`Session.Sound`) is weaker. The definition of a constant is typed at the type that the constant is
declared at, where accepted axioms may be used at any type whatever; and a constant without a
definition is an accepted axiom. Every form keeps this (`Session.Sound.process`), and it is all that
normalisation asks for: an expression that type checks has, once expanded, a typing in which nothing
but axioms can get stuck.

`Session.Reached.process_expr` draws the conclusion. In a session that was reached by any forms,
accepted or refused, evaluating an expression ends. What comes out is a type error, a value, or an
axiom that has no definition.
-/

namespace SystemT

/-- `x` was declared by one of the forms. -/
def Axiomatic (forms : List Form) (x : Ident) : Prop :=
  ∃ A span, Form.declare x A span ∈ forms

theorem Axiomatic.mono {forms : List Form} {x : Ident} (h : Axiomatic forms x) (form : Form) :
    Axiomatic (form :: forms) x := by
  obtain ⟨A, span, h⟩ := h
  exact ⟨A, span, List.mem_cons_of_mem form h⟩

namespace Session

/-! ## Reachable sessions -/

/-- Sessions that processing forms leads to, with the forms that were accepted, the latest first. A
form that is refused leaves the session as it was. -/
inductive Reached : List Form → Session → Prop where
  | start : Reached [] {}
  | accept {accepted : List Form} {s s' : Session} {fuel : Nat} {mode : Mode} {form : Form}
      {outcome : Outcome} (h : Reached accepted s)
      (hform : s.process fuel mode form = .ok (outcome, s')) : Reached (form :: accepted) s'
  | refuse {accepted : List Form} {s : Session} {fuel : Nat} {mode : Mode} {form : Form}
      {e : Failure SessionError} (h : Reached accepted s)
      (hform : s.process fuel mode form = .error e) : Reached accepted s

/-- Accepted axioms may be used at any type. -/
def Untyped (accepted : List Form) (x : Ident) (_ : Ty) : Prop := Axiomatic accepted x

/-- What holds of the declarations and definitions that the accepted forms have led to. -/
structure Sound (accepted : List Form) (s : Session) : Prop where
  bound : s.ctx.bound = []
  closed : s.defs.Closed
  defined : ∀ x d A, s.defs.get? x = some d → s.ctx.lookup? x = some A →
    Typing (Untyped accepted) [] d A
  axiomatic : ∀ x A, s.defs.get? x = none → s.ctx.lookup? x = some A → Axiomatic accepted x

theorem sound_start : Sound [] {} where
  bound := rfl
  closed := ConstSubst.closed_empty
  defined := by
    intro x d A hd hx
    have hnone : (∅ : ConstSubst).get? x = none := ConstSubst.get?_empty x
    exact nomatch hnone.symm.trans hd
  axiomatic := by
    intro x A hd hx
    have hnone : Context.empty.lookup? x = none := Context.lookup?_empty x
    exact nomatch hnone.symm.trans hx

variable {accepted : List Form} {s s' : Session}

theorem Sound.mono (h : Sound accepted s) (form : Form) : Sound (form :: accepted) s where
  bound := h.bound
  closed := h.closed
  defined := by
    intro x d A hd hx
    have hkept : Typing (Untyped (form :: accepted)) [] d ((∅ : Subst).apply A) :=
      (h.defined x d A hd hx).apply ∅ fun y B hy => Axiomatic.mono hy form
    rwa [Subst.apply_empty] at hkept
  axiomatic := fun x A hd hx => (h.axiomatic x A hd hx).mono form

/-- An expression that type checks is typed, once it is expanded, with axioms at any types. -/
theorem Sound.typed (h : Sound accepted s) {t : Term} {r : Inferred}
    (ht : typeCheck t s.ctx = .ok r) :
    Typing (Untyped accepted) [] (t.substConsts s.defs) r.ty := by
  have htyped := typing_of_typeCheck h.bound ht
  -- a constant is used at the type that it is declared at, which is that of its definition
  exact htyped.substConsts h.closed (fun x d B hd hx => h.defined x d B hd hx) h.axiomatic

/-- A definition is typed at the type that is recorded for it. -/
theorem Sound.typed_withDisplayNames (h : Sound accepted s) {t : Term} {r : Inferred}
    (ht : typeCheck t s.ctx = .ok r) :
    Typing (Untyped accepted) [] (t.substConsts s.defs) r.ty.withDisplayNames :=
  (h.typed ht).apply _ fun _ _ hx => hx

/-! ## Processing a form -/

theorem bind_eq_ok {ε α β : Type} {x : Except ε α} {f : α → Except ε β} {b : β} :
    (x >>= f) = .ok b ↔ ∃ a, x = .ok a ∧ f a = .ok b := by
  cases x with
  | error e =>
    constructor
    · intro h
      cases h
    · rintro ⟨a, ha, -⟩
      cases ha
  | ok a =>
    constructor
    · intro h
      exact ⟨a, rfl, h⟩
    · rintro ⟨_, ⟨⟩, h⟩
      exact h

theorem bind_eq_error {ε α β : Type} {x : Except ε α} {f : α → Except ε β} {e : ε} :
    (x >>= f) = .error e ↔ x = .error e ∨ ∃ a, x = .ok a ∧ f a = .error e := by
  cases x with
  | error e' =>
    constructor
    · intro h
      cases h
      exact .inl rfl
    · rintro (⟨⟨⟩⟩ | ⟨a, ha, -⟩)
      · rfl
      · cases ha
  | ok a =>
    constructor
    · intro h
      exact .inr ⟨a, rfl, h⟩
    · rintro (⟨⟨⟩⟩ | ⟨_, ⟨⟩, h⟩)
      exact h

section

variable {fuel : Nat} {mode : Mode} {t : Term} {span : Span}

theorem process_define_eq (s : Session) (fuel : Nat) (mode : Mode) (x : Ident) (t : Term)
    (span : Span) :
    s.process fuel mode (.define x t span) = (s.infer t span >>= fun A => s.expand t >>= fun d =>
      .ok (.defined x A, ⟨s.ctx.declare x A, s.defs.insert x d⟩)) := rfl

theorem process_check_eq (s : Session) (fuel : Nat) (t : Term) (span : Span) :
    s.process fuel .check (.expr t span) =
      (s.infer t span >>= fun A => .ok (.typed t A, s)) := rfl

theorem process_eval_eq (s : Session) (fuel : Nat) (t : Term) (span : Span) :
    s.process fuel .eval (.expr t span) = (s.infer t span >>= fun A => s.expand t >>= fun u =>
      (u.tryEvaluate fuel).mapError (Failure.map (.eval · span)) >>= fun v =>
        .ok (.evaluated v A, s)) := rfl

theorem infer_eq_ok {A : Ty} (h : s.infer t span = .ok A) :
    ∃ r, typeCheck t s.ctx = .ok r ∧ A = r.ty.withDisplayNames := by
  unfold infer at h
  cases hr : typeCheck t s.ctx with
  | ok r =>
    rw [hr] at h
    cases h
    exact ⟨r, rfl, rfl⟩
  | error e =>
    rw [hr] at h
    cases h

theorem infer_of_typeCheck {r : Inferred} (h : typeCheck t s.ctx = .ok r) :
    s.infer t span = .ok r.ty.withDisplayNames := by
  rw [infer, h]

/-- What keeps an expression from having a type, or from having it found. -/
theorem infer_eq_error {e : Failure SessionError} (h : s.infer t span = .error e) :
    (∃ e', e = .error (.type e' span) ∧ typeCheck t s.ctx = .error (.error e')) ∨
      (e = .fault .counterOverflow ∧ s.ctx.Exhausts t) := by
  unfold infer at h
  cases hr : typeCheck t s.ctx with
  | ok r =>
    rw [hr] at h
    cases h
  | error e' =>
    rw [hr] at h
    cases h
    cases e' with
    | error e' => exact .inl ⟨e', rfl, rfl⟩
    | fault f =>
      obtain ⟨rfl, hlimit⟩ := typeCheck_fault hr
      exact .inr ⟨rfl, hlimit⟩

theorem Sound.expand_cases (h : Sound accepted s) (t : Term) :
    s.expand t = .ok (t.substConsts s.defs) ∨
      (s.expand t = .error (.fault .indexOverflow) ∧
        ∃ x d, s.defs.get? x = some d ∧ indexLimit ≤ d.nesting) := by
  unfold expand
  rcases Term.substConsts?_cases h.closed t with ht | ⟨ht, hdeep⟩
  · rw [ht]
    exact .inl rfl
  · rw [ht]
    exact .inr ⟨rfl, hdeep⟩

/-- An accepted definition is recorded with its displayed type and its expansion. -/
theorem Sound.process_define (h : Sound accepted s) {x : Ident} {outcome : Outcome}
    (hform : s.process fuel mode (.define x t span) = .ok (outcome, s')) :
    ∃ r, typeCheck t s.ctx = .ok r ∧ s' = ⟨s.ctx.declare x r.ty.withDisplayNames,
      s.defs.insert x (t.substConsts s.defs)⟩ := by
  rw [process_define_eq] at hform
  obtain ⟨A, hA, hform⟩ := bind_eq_ok.mp hform
  obtain ⟨d, hd, hform⟩ := bind_eq_ok.mp hform
  obtain ⟨r, hr, rfl⟩ := infer_eq_ok hA
  rcases h.expand_cases t with ht | ⟨ht, -⟩
  · rw [ht] at hd
    cases hd
    cases hform
    exact ⟨r, hr, rfl⟩
  · rw [ht] at hd
    cases hd

/-- Expressions change nothing. -/
theorem process_expr_ok {outcome : Outcome}
    (hform : s.process fuel mode (.expr t span) = .ok (outcome, s')) : s' = s := by
  cases mode with
  | check =>
    rw [process_check_eq] at hform
    obtain ⟨A, -, hform⟩ := bind_eq_ok.mp hform
    cases hform
    rfl
  | eval =>
    rw [process_eval_eq] at hform
    obtain ⟨A, -, hform⟩ := bind_eq_ok.mp hform
    obtain ⟨u, -, hform⟩ := bind_eq_ok.mp hform
    obtain ⟨v, -, hform⟩ := bind_eq_ok.mp hform
    cases hform
    rfl

/-- **Every form keeps the invariant.** -/
theorem Sound.process (h : Sound accepted s) {form : Form} {outcome : Outcome}
    (hform : s.process fuel mode form = .ok (outcome, s')) :
    Sound (form :: accepted) s' := by
  have hmono := h.mono form
  cases form with
  | define x t span =>
    -- `x` gets a definition and the type of it; everything else stays
    obtain ⟨r, hr, rfl⟩ := h.process_define hform
    have htyped := hmono.typed_withDisplayNames hr
    refine ⟨h.bound, h.closed.insert x htyped.closedAt, ?_, ?_⟩
    · intro y d A hd hy
      rw [ConstSubst.get?_insert] at hd
      rw [Context.lookup?_declare] at hy
      by_cases hxy : x = y
      · rw [if_pos hxy] at hd hy
        cases hd
        cases hy
        exact htyped
      · rw [if_neg hxy] at hd hy
        exact hmono.defined y d A hd hy
    · intro y A hd hy
      rw [ConstSubst.get?_insert] at hd
      rw [Context.lookup?_declare] at hy
      by_cases hxy : x = y
      · rw [if_pos hxy] at hd
        cases hd
      · rw [if_neg hxy] at hd hy
        exact hmono.axiomatic y A hd hy
  | declare x A span =>
    -- `x` loses the definition it may have had, and is an accepted axiom from now on
    cases hform
    refine ⟨h.bound, h.closed.erase x, ?_, ?_⟩
    · intro y d B hd hy
      rw [ConstSubst.get?_erase] at hd
      rw [Context.lookup?_declare] at hy
      by_cases hxy : x = y
      · rw [if_pos hxy] at hd
        cases hd
      · rw [if_neg hxy] at hd hy
        exact hmono.defined y d B hd hy
    · intro y B hd hy
      rw [ConstSubst.get?_erase] at hd
      rw [Context.lookup?_declare] at hy
      by_cases hxy : x = y
      · subst hxy
        exact ⟨A, span, List.mem_cons_self⟩
      · rw [if_neg hxy] at hd hy
        exact hmono.axiomatic y B hd hy
  | expr t span =>
    obtain rfl := process_expr_ok hform
    exact hmono

theorem Reached.sound (h : Reached accepted s) : Sound accepted s := by
  induction h with
  | start => exact sound_start
  | accept _ hform ih => exact ih.process hform
  | refuse _ _ ih => exact ih

/-! ## Evaluating an expression -/

/-- What evaluating the expression `t` may lead to: its type error, its value, or an accepted axiom
without a definition. Besides these there are the bounds of the machine, where the type of `t` needs
more variables than can be numbered, or a definition has more binders inside one another than can
be counted. -/
inductive Answer (accepted : List Form) (s : Session) (t : Term) (span : Span) :
    Except (Failure SessionError) (Outcome × Session) → Prop where
  | illTyped {e : TypeError} (h : typeCheck t s.ctx = .error (.error e)) :
      Answer accepted s t span (.error (.error (.type e span)))
  | value {r : Inferred} {v : Term} (h : typeCheck t s.ctx = .ok r)
      (hv : Evaluation.Yields (.term (t.substConsts s.defs)) (.ok v)) :
      Answer accepted s t span (.ok (.evaluated v r.ty.withDisplayNames, s))
  | unresolved {r : Inferred} {x : Ident} (h : typeCheck t s.ctx = .ok r)
      (hv : Evaluation.Yields (.term (t.substConsts s.defs)) (.error (.unresolved x)))
      (hx : Axiomatic accepted x) :
      Answer accepted s t span (.error (.error (.eval (.unresolved x) span)))
  | exhausted (h : s.ctx.Exhausts t) :
      Answer accepted s t span (.error (.fault .counterOverflow))
  | tooDeep {x : Ident} {d : Term} (h : s.defs.get? x = some d) (hd : indexLimit ≤ d.nesting) :
      Answer accepted s t span (.error (.fault .indexOverflow))

/-- In a sound session, evaluating an expression that type checks ends. -/
theorem Sound.process_eval_typed (h : Sound accepted s) {r : Inferred}
    (hr : typeCheck t s.ctx = .ok r) (span : Span) :
    ∃ answer, ((∃ v, answer = .ok (.evaluated v r.ty.withDisplayNames, s) ∧
        Evaluation.Yields (.term (t.substConsts s.defs)) (.ok v)) ∨
      (∃ x, answer = .error (.error (.eval (.unresolved x) span)) ∧
        Evaluation.Yields (.term (t.substConsts s.defs)) (.error (.unresolved x)) ∧
        Axiomatic accepted x) ∨
      (answer = .error (.fault .indexOverflow) ∧
        ∃ x d, s.defs.get? x = some d ∧ indexLimit ≤ d.nesting)) ∧
      (∃ enough, ∀ fuel, enough ≤ fuel → s.process fuel .eval (.expr t span) = answer) ∧
      ∀ fuel, s.process fuel .eval (.expr t span) = answer ∨
        s.process fuel .eval (.expr t span) = .error (.fault .outOfFuel) := by
  have hA : s.infer t span = .ok r.ty.withDisplayNames := by rw [infer, hr]
  simp only [process_eval_eq, hA]
  rcases h.expand_cases t with ht | ⟨ht, x, d, hx, hd⟩
  · rw [ht]
    have htyped := h.typed hr
    have hstuck : ∀ x B, Untyped accepted x B → Axiomatic accepted x := fun _ _ hx => hx
    obtain ⟨result, hyields, hgood, ⟨enough, hsettles⟩, hall⟩ :=
      (Evaluation.computes_of_typing_nil hstuck htyped).tryEvaluate htyped.closedAt
    -- evaluation ends with `result`, which is reported as it is
    refine ⟨(Evaluation.finished result).mapError (Failure.map (.eval · span)) >>= fun v =>
      .ok (.evaluated v r.ty.withDisplayNames, s), ?_, ⟨enough, fun fuel hfuel => ?_⟩,
      fun fuel => ?_⟩
    · cases hgood with
      | ok hv => exact .inl ⟨_, rfl, hyields⟩
      | unresolved hx => exact .inr (.inl ⟨_, rfl, hyields, hx⟩)
    · rw [← hsettles fuel hfuel]
      rfl
    · rcases hall fuel with hv | hout
      · refine .inl ?_
        rw [← hv]
        rfl
      · refine .inr ?_
        show ((t.substConsts s.defs).tryEvaluate fuel).mapError _ >>= _ = _
        rw [hout]
        rfl
  · rw [ht]
    exact ⟨_, .inr (.inr ⟨rfl, x, d, hx, hd⟩), ⟨0, fun _ _ => rfl⟩, fun _ => .inl rfl⟩

/-- In a sound session, evaluating an expression ends with an answer. -/
theorem Sound.process_eval (h : Sound accepted s) (t : Term) (span : Span) :
    ∃ answer, Answer accepted s t span answer ∧
      (∃ enough, ∀ fuel, enough ≤ fuel → s.process fuel .eval (.expr t span) = answer) ∧
      ∀ fuel, s.process fuel .eval (.expr t span) = answer ∨
        s.process fuel .eval (.expr t span) = .error (.fault .outOfFuel) := by
  cases hA : s.infer t span with
  | error e =>
    simp only [process_eval_eq, hA]
    refine ⟨.error e, ?_, ⟨0, fun _ _ => rfl⟩, fun _ => .inl rfl⟩
    rcases infer_eq_error hA with ⟨e', rfl, he⟩ | ⟨rfl, hlimit⟩
    · exact .illTyped he
    · exact .exhausted hlimit
  | ok A =>
    obtain ⟨r, hr, rfl⟩ := infer_eq_ok hA
    obtain ⟨answer, hanswer, hends⟩ := h.process_eval_typed hr span
    refine ⟨answer, ?_, hends⟩
    rcases hanswer with ⟨v, rfl, hv⟩ | ⟨x, rfl, hv, hx⟩ | ⟨rfl, x, d, hx, hd⟩
    · exact .value hr hv
    · exact .unresolved hr hv hx
    · exact .tooDeep hx hd

/-- In a sound session, no evaluation error is reported but that an axiom has no definition. -/
theorem Sound.eval_error (h : Sound accepted s) {form : Form} {e : EvalError}
    (hform : s.process fuel mode form = .error (.error (.eval e span))) :
    ∃ x, e = .unresolved x ∧ Axiomatic accepted x := by
  -- neither a type nor an expansion that fails is reported as an evaluation error
  have hinfer : ∀ t span', s.infer t span' ≠ .error (.error (.eval e span)) := by
    intro t span' he
    rcases infer_eq_error he with ⟨_, he, -⟩ | ⟨he, -⟩
    · cases he
    · cases he
  have hexpand : ∀ t, s.expand t ≠ .error (.error (.eval e span)) := by
    intro t he
    rcases h.expand_cases t with ht | ⟨ht, -⟩
    · rw [ht] at he
      cases he
    · rw [ht] at he
      cases he
  cases form with
  | declare x A span' => cases hform
  | define x t span' =>
    rw [process_define_eq] at hform
    rcases bind_eq_error.mp hform with hA | ⟨A, -, hform⟩
    · exact absurd hA (hinfer t span')
    · rcases bind_eq_error.mp hform with hd | ⟨d, -, hform⟩
      · exact absurd hd (hexpand t)
      · cases hform
  | expr t span' =>
    cases mode with
    | check =>
      rw [process_check_eq] at hform
      rcases bind_eq_error.mp hform with hA | ⟨A, -, hform⟩
      · exact absurd hA (hinfer t span')
      · cases hform
    | eval =>
      obtain ⟨answer, hanswer, -, hall⟩ := h.process_eval t span'
      rcases hall fuel with hrun | hrun
      · rw [hform] at hrun
        subst hrun
        cases hanswer with
        | unresolved _ _ hx => exact ⟨_, rfl, hx⟩
      · rw [hform] at hrun
        cases hrun

end

/-- **Sessions are sound.** In a session reached by any forms, whatever was declared or defined anew
meanwhile, evaluating an expression ends: large amounts of fuel lead to one answer, and smaller ones
lead to it too or run out. The answer is a type error, a value, an axiom accepted earlier that has
no definition, or a bound of the machine; and no other evaluation error is ever reported. -/
theorem Reached.process_expr {accepted : List Form} {s : Session} (h : Reached accepted s) :
    (∀ t span, ∃ answer, Answer accepted s t span answer ∧
      (∃ enough, ∀ fuel, enough ≤ fuel → s.process fuel .eval (.expr t span) = answer) ∧
      ∀ fuel, s.process fuel .eval (.expr t span) = answer ∨
        s.process fuel .eval (.expr t span) = .error (.fault .outOfFuel)) ∧
    ∀ fuel mode form e span, s.process fuel mode form = .error (.error (.eval e span)) →
      ∃ x, e = .unresolved x ∧ Axiomatic accepted x :=
  ⟨h.sound.process_eval, fun _ _ _ _ _ hform => h.sound.eval_error hform⟩

/-- `x` is declared at `nat`, used in the definition of `y`, and declared anew at `nat → nat`. Then
`x y` type checks, its expansion has no typing in any context, and evaluating it comes to `x`. -/
theorem Reached.process_expr_redeclared :
    ∃ x y, x = Ident.named "x" ∧ y = Ident.named "y" ∧ ∃ accepted s, Reached accepted s ∧
      s.ctx.lookup? x = some (.arrow .nat .nat) ∧
      s.defs.get? y = some (.cond .tt (.fvar x) .zero) ∧
      s.process 9 .eval (.expr (.app (.fvar x) (.fvar y)) ⟨0, 0⟩) =
        .error (.error (.eval (.unresolved x) ⟨0, 0⟩)) ∧
      (∀ t span, ∃ answer, Answer accepted s t span answer ∧
        (∃ enough, ∀ fuel, enough ≤ fuel → s.process fuel .eval (.expr t span) = answer) ∧
        ∀ fuel, s.process fuel .eval (.expr t span) = answer ∨
          s.process fuel .eval (.expr t span) = .error (.fault .outOfFuel)) ∧
      ∀ fuel mode form e span, s.process fuel mode form = .error (.error (.eval e span)) →
        ∃ x, e = .unresolved x ∧ Axiomatic accepted x := by
  have hfirst : Session.process {} 9 .eval (.declare (.named "x") .nat ⟨0, 0⟩) =
      .ok (.declared (.named "x") .nat, ⟨Context.empty.declare (.named "x") .nat,
        (∅ : ConstSubst).erase (.named "x")⟩) := rfl
  have hcond : Session.infer ⟨Context.empty.declare (.named "x") .nat,
        (∅ : ConstSubst).erase (.named "x")⟩
      (.cond .tt (.fvar (.named "x")) .zero) ⟨0, 0⟩ = .ok .nat := by
    rw [infer, typeCheck_eq]
    cbv
  have hsecond : Session.process ⟨Context.empty.declare (.named "x") .nat,
        (∅ : ConstSubst).erase (.named "x")⟩ 9 .eval
        (.define (.named "y") (.cond .tt (.fvar (.named "x")) .zero) ⟨0, 0⟩) =
      .ok (.defined (.named "y") .nat,
        ⟨(Context.empty.declare (.named "x") .nat).declare (.named "y") .nat,
          ((∅ : ConstSubst).erase (.named "x")).insert (.named "y")
            (.cond .tt (.fvar (.named "x")) .zero)⟩) := by
    rw [process_define_eq, hcond]
    rfl
  have hthird : Session.process
        ⟨(Context.empty.declare (.named "x") .nat).declare (.named "y") .nat,
          ((∅ : ConstSubst).erase (.named "x")).insert (.named "y")
            (.cond .tt (.fvar (.named "x")) .zero)⟩ 9 .eval
        (.declare (.named "x") (.arrow .nat .nat) ⟨0, 0⟩) =
      .ok (.declared (.named "x") (.arrow .nat .nat),
        ⟨((Context.empty.declare (.named "x") .nat).declare (.named "y") .nat).declare
            (.named "x") (.arrow .nat .nat),
          (((∅ : ConstSubst).erase (.named "x")).insert (.named "y")
            (.cond .tt (.fvar (.named "x")) .zero)).erase (.named "x")⟩) := rfl
  have happ : Session.infer
        ⟨((Context.empty.declare (.named "x") .nat).declare (.named "y") .nat).declare
            (.named "x") (.arrow .nat .nat),
          (((∅ : ConstSubst).erase (.named "x")).insert (.named "y")
            (.cond .tt (.fvar (.named "x")) .zero)).erase (.named "x")⟩
        (.app (.fvar (.named "x")) (.fvar (.named "y"))) ⟨0, 0⟩ = .ok .nat := by
    rw [infer, typeCheck_eq]
    cbv
  have hreached := ((Reached.start.accept hfirst).accept hsecond).accept hthird
  refine ⟨_, _, rfl, rfl, _, _, hreached, by cbv, by cbv, ?_, hreached.process_expr⟩
  rw [process_eval_eq, happ]
  rfl

end Session

end SystemT
