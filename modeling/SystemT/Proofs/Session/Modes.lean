import Mathlib.Data.List.Forall2
import SystemT.Proofs.Session.Sources

/-!
# Checking and evaluating

A source text may be run to report types only, or types and values. Both runs go through the same
sessions, since expressions do not change them, and they report the same names and types, until an
expression has no value (`Session.Sound.comparable`). Every expression that type checks has a value
or meets an axiom without a definition, so that the run that evaluates always ends.

What a run leaves behind are the definitions and the declarations that it accepted before a form
failed; expressions and the form that fails leave nothing (`Session.stops_of_runForms`).
-/

namespace SystemT

/-- Checking and evaluating the same form report the same names and types. -/
inductive Outcome.Matches : Outcome → Outcome → Prop
  | defined (x : Ident) (A : Ty) : Matches (.defined x A) (.defined x A)
  | declared (x : Ident) (A : Ty) : Matches (.declared x A) (.declared x A)
  | expr (t v : Term) (A : Ty) : Matches (.typed t A) (.evaluated v A)

/-- Does the form change the session? -/
def Form.changes : Form → Bool
  | define _ _ _ => true
  | declare _ _ _ => true
  | expr _ _ => false

namespace Session

/-! ## Comparing the two runs -/

/-- Checking the forms comes to the expression `t` in the session `s'`, with the outcomes `outcomes`
of the forms before it. The type of `t` is reported, and checking goes on in the same session. -/
def ChecksUpTo (s : Session) (forms : List Form) (error : Option ReadError)
    (outcomes : List Outcome) (t : Term) (span : Span) (s' : Session) : Prop :=
  ∃ before after A, forms = before ++ .expr t span :: after ∧ ∀ fuel,
    s.runForms fuel .check none before = .ok (⟨outcomes, none⟩, s') ∧
    s'.process fuel .check (.expr t span) = .ok (.typed t A, s') ∧
    s.runForms fuel .check error forms =
      (s'.runForms fuel .check error after).map (Prod.map (.after (outcomes ++ [.typed t A])) id)

/-- What evaluating the forms may lead to, compared with checking them. -/
inductive Compared (s : Session) (forms : List Form) (error : Option ReadError) :
    Except Fault (Transcript × Session) → Prop
  /-- The outcomes match, and the errors and the sessions are the same. -/
  | alike {outcomes outcomes' : List Outcome} {e : Option SessionError} {s' : Session}
    (hcheck : ∀ fuel, s.runForms fuel .check error forms = .ok (⟨outcomes, e⟩, s'))
    (houtcomes : List.Forall₂ Outcome.Matches outcomes outcomes')
    (he : ∀ e' span, e ≠ some (.eval e' span)) :
    Compared s forms error (.ok (⟨outcomes', e⟩, s'))
  /-- Both runs come to the same bound of the machine. -/
  | fault {f : Fault} (hcheck : ∀ fuel, s.runForms fuel .check error forms = .error f) :
    Compared s forms error (.error f)
  /-- An expression that type checks meets an axiom without a definition. -/
  | unresolved {outcomes outcomes' : List Outcome} {t : Term} {span : Span} {s' : Session}
    {x : Ident} (hcheck : s.ChecksUpTo forms error outcomes t span s')
    (houtcomes : List.Forall₂ Outcome.Matches outcomes outcomes') :
    Compared s forms error (.ok (⟨outcomes', some (.eval (.unresolved x) span)⟩, s'))
  /-- A definition has more binders inside one another than can be counted. -/
  | tooDeep {outcomes : List Outcome} {t : Term} {span : Span} {s' : Session} {x : Ident} {d : Term}
    (hcheck : s.ChecksUpTo forms error outcomes t span s') (hx : s'.defs.get? x = some d)
    (hd : indexLimit ≤ d.nesting) : Compared s forms error (.error .indexOverflow)

variable {s next : Session} {form : Form} {forms : List Form} {error : Option ReadError}

/-- Only expressions are processed differently by mode and fuel. -/
theorem process_changes (s : Session) (h : form.changes = true) (fuel fuel' : Nat)
    (mode mode' : Mode) : s.process fuel mode form = s.process fuel' mode' form := by
  cases form with
  | define x t span => rfl
  | declare x A span => rfl
  | expr t span => cases h

/-- Such forms are reported alike. -/
theorem matches_of_changes (h : form.changes = true) {fuel : Nat} {mode : Mode} {outcome : Outcome}
    (hform : s.process fuel mode form = .ok (outcome, next)) : outcome.Matches outcome := by
  cases form with
  | declare x A span =>
    cases hform
    exact .declared x A
  | define x t span =>
    rw [process_define_eq] at hform
    obtain ⟨A, -, hform⟩ := bind_eq_ok.mp hform
    obtain ⟨d, -, hform⟩ := bind_eq_ok.mp hform
    cases hform
    exact .defined x A
  | expr t span => cases h

/-- The errors of checking are type errors. -/
theorem process_check_error {fuel : Nat} {e : SessionError}
    (h : s.process fuel .check form = .error (.error e)) : ∃ e' span, e = .type e' span := by
  have hinfer : ∀ {t span}, s.infer t span = .error (.error e) → ∃ e' span, e = .type e' span := by
    intro t span he
    rcases infer_eq_error he with ⟨e', he, -⟩ | ⟨he, -⟩
    · cases he
      exact ⟨e', span, rfl⟩
    · cases he
  cases form with
  | declare x A span => cases h
  | define x t span =>
    rw [process_define_eq] at h
    rcases bind_eq_error.mp h with hA | ⟨A, -, h⟩
    · exact hinfer hA
    · rcases bind_eq_error.mp h with hd | ⟨d, -, h⟩
      · rw [expand] at hd
        cases hsubst : t.substConsts? s.defs <;> rw [hsubst] at hd <;> cases hd
      · cases h
  | expr t span =>
    rw [process_check_eq] at h
    rcases bind_eq_error.mp h with hA | ⟨A, -, h⟩
    · exact hinfer hA
    · cases h

theorem ChecksUpTo.cons {outcome : Outcome} {outcomes : List Outcome} {t : Term} {span : Span}
    {s' : Session} (h : next.ChecksUpTo forms error outcomes t span s')
    (hform : ∀ fuel, s.process fuel .check form = .ok (outcome, next)) :
    s.ChecksUpTo (form :: forms) error (outcome :: outcomes) t span s' := by
  obtain ⟨before, after, A, rfl, hcheck⟩ := h
  refine ⟨form :: before, after, A, rfl, fun fuel => ?_⟩
  obtain ⟨hbefore, hexpr, hall⟩ := hcheck fuel
  refine ⟨?_, hexpr, ?_⟩
  · rw [runForms, hform]
    dsimp only
    rw [hbefore]
    rfl
  · rw [runForms, hform]
    dsimp only
    rw [hall]
    cases s'.runForms fuel .check error after with
    | error f => rfl
    | ok result => simp only [Except.map, Prod.map, Transcript.after_after, List.cons_append,
        List.nil_append, id]

/-- A form that both runs accept. -/
theorem Compared.cons {outcome outcome' : Outcome} {answer : Except Fault (Transcript × Session)}
    (h : next.Compared forms error answer)
    (hform : ∀ fuel, s.process fuel .check form = .ok (outcome, next))
    (houtcome : outcome.Matches outcome') :
    s.Compared (form :: forms) error (answer.map (Prod.map (.after [outcome']) id)) := by
  have hrun : ∀ fuel, s.runForms fuel .check error (form :: forms) =
      (next.runForms fuel .check error forms).map (Prod.map (.after [outcome]) id) := by
    intro fuel
    rw [runForms, hform]
  cases h with
  | alike hcheck houtcomes he =>
    refine .alike (fun fuel => ?_) (.cons houtcome houtcomes) he
    rw [hrun, hcheck]
    rfl
  | fault hcheck =>
    refine .fault fun fuel => ?_
    rw [hrun, hcheck]
    rfl
  | unresolved hcheck houtcomes =>
    exact .unresolved (hcheck.cons hform) (.cons houtcome houtcomes)
  | tooDeep hcheck hx hd => exact .tooDeep (hcheck.cons hform) hx hd

/-- With enough fuel the computation ends with `answer`, and with less it does so or runs out. -/
def Ends {α : Type} (out : α) (run : Nat → α) (answer : α) : Prop :=
  (∃ enough, ∀ fuel, enough ≤ fuel → run fuel = answer) ∧
    ∀ fuel, run fuel = answer ∨ run fuel = out

theorem ends_const {α : Type} {out : α} {run : Nat → α} {answer : α}
    (h : ∀ fuel, run fuel = answer) : Ends out run answer :=
  ⟨⟨0, fun fuel _ => h fuel⟩, fun fuel => .inl (h fuel)⟩

/-- A run ends if its first form does and, where that is accepted, the others do. -/
theorem ends_cons {result : Except (Failure SessionError) (Outcome × Session)}
    {answer : Except Fault (Transcript × Session)}
    (hform : Ends (.error (.fault .outOfFuel)) (s.process · .eval form) result)
    (hforms : match result with
      | .error (.fault f) => answer = .error f
      | .error (.error e) => answer = .ok (⟨[], some e⟩, s)
      | .ok (outcome, next) => ∃ answer',
        Ends (.error .outOfFuel) (fun fuel => next.runForms fuel .eval error forms) answer' ∧
        answer = answer'.map (Prod.map (.after [outcome]) id)) :
    Ends (.error .outOfFuel) (fun fuel => s.runForms fuel .eval error (form :: forms)) answer := by
  obtain ⟨⟨enough, henough⟩, hall⟩ := hform
  have hout : ∀ fuel, s.process fuel .eval form = .error (.fault .outOfFuel) →
      s.runForms fuel .eval error (form :: forms) = .error .outOfFuel := by
    intro fuel hfuel
    rw [runForms, hfuel]
  cases result with
  | error e =>
    have hanswer : ∀ fuel, s.process fuel .eval form = .error e →
        s.runForms fuel .eval error (form :: forms) = answer := by
      intro fuel hfuel
      rw [runForms, hfuel]
      cases e <;> exact hforms.symm
    exact ⟨⟨enough, fun fuel hfuel => hanswer fuel (henough fuel hfuel)⟩,
      fun fuel => (hall fuel).imp (hanswer fuel) (hout fuel)⟩
  | ok result =>
    obtain ⟨outcome, next⟩ := result
    obtain ⟨answer', ⟨⟨enough', henough'⟩, hall'⟩, rfl⟩ := hforms
    have hnext : ∀ fuel, s.process fuel .eval form = .ok (outcome, next) →
        s.runForms fuel .eval error (form :: forms) =
          (next.runForms fuel .eval error forms).map (Prod.map (.after [outcome]) id) := by
      intro fuel hfuel
      rw [runForms, hfuel]
    constructor
    · refine ⟨max enough enough', fun fuel hfuel => ?_⟩
      obtain ⟨hfirst, hothers⟩ := Nat.max_le.mp hfuel
      exact (hnext fuel (henough fuel hfirst)).trans
        (congrArg (Except.map _) (henough' fuel hothers))
    · intro fuel
      rcases hall fuel with hfirst | hfirst
      · refine (hall' fuel).imp (fun hothers => ?_) fun hothers => ?_
        · exact (hnext fuel hfirst).trans (congrArg (Except.map _) hothers)
        · exact (hnext fuel hfirst).trans (congrArg (Except.map _) hothers)
      · exact .inr (hout fuel hfirst)

/-- Evaluating the forms ends with an answer that compares to checking them. -/
def Comparable (s : Session) (forms : List Form) (error : Option ReadError) : Prop :=
  ∃ answer, s.Compared forms error answer ∧
    Ends (.error .outOfFuel) (fun fuel => s.runForms fuel .eval error forms) answer

/-- A form that is refused in the same way whether or not it is evaluated. -/
theorem comparable_of_refused {e : Failure SessionError}
    (h : ∀ fuel mode, s.process fuel mode form = .error e) :
    s.Comparable (form :: forms) error := by
  cases e with
  | fault f =>
    refine ⟨.error f, .fault fun fuel => ?_, ends_cons (ends_const (h · .eval)) rfl⟩
    rw [runForms, h]
  | error e =>
    refine ⟨.ok (⟨[], some e⟩, s), .alike (fun fuel => ?_) .nil ?_,
      ends_cons (ends_const (h · .eval)) rfl⟩
    · rw [runForms, h]
    · obtain ⟨e', span, rfl⟩ := process_check_error (h 0 .check)
      rintro _ _ ⟨⟩

/-- A form that is accepted whether or not it is evaluated. -/
theorem Comparable.cons {outcome outcome' : Outcome} (h : next.Comparable forms error)
    (hcheck : ∀ fuel, s.process fuel .check form = .ok (outcome, next))
    (houtcome : outcome.Matches outcome')
    (hends : Ends (.error (.fault .outOfFuel)) (s.process · .eval form) (.ok (outcome', next))) :
    s.Comparable (form :: forms) error := by
  obtain ⟨answer, hcompared, hforms⟩ := h
  exact ⟨_, hcompared.cons hcheck houtcome, ends_cons hends ⟨answer, hforms, rfl⟩⟩

/-- An expression, before forms that both runs accept. -/
theorem Sound.comparable_expr {accepted : List Form} (h : Sound accepted s)
    (hforms : s.Comparable forms error) (t : Term) (span : Span) :
    s.Comparable (.expr t span :: forms) error := by
  cases hA : s.infer t span with
  | error e =>
    have hrefused : ∀ fuel mode, s.process fuel mode (.expr t span) = .error e := by
      intro fuel mode
      cases mode with
      | check => rw [process_check_eq, hA]; rfl
      | eval => rw [process_eval_eq, hA]; rfl
    exact comparable_of_refused hrefused
  | ok A =>
    have hcheck : ∀ fuel, s.process fuel .check (.expr t span) = .ok (.typed t A, s) := by
      intro fuel
      rw [process_check_eq, hA]
      rfl
    have hupTo : s.ChecksUpTo (.expr t span :: forms) error [] t span s := by
      refine ⟨[], forms, A, rfl, fun fuel => ⟨rfl, hcheck fuel, ?_⟩⟩
      rw [runForms, hcheck]
      rfl
    obtain ⟨r, hr, rfl⟩ := infer_eq_ok hA
    obtain ⟨answer, hanswer, hends⟩ := h.process_eval_typed hr span
    rcases hanswer with ⟨v, rfl, -⟩ | ⟨x, rfl, -⟩ | ⟨rfl, x, d, hx, hd⟩
    · exact hforms.cons hcheck (.expr t v _) hends
    · exact ⟨_, .unresolved hupTo .nil, ends_cons hends rfl⟩
    · exact ⟨_, .tooDeep hupTo hx hd, ends_cons hends rfl⟩

/-- In a sound session, evaluating forms ends, as checking them says. -/
theorem Sound.comparable {accepted : List Form} (h : Sound accepted s) (forms : List Form)
    (error : Option ReadError) : s.Comparable forms error := by
  induction forms generalizing s accepted with
  | nil =>
    refine ⟨_, .alike (fun _ => rfl) .nil ?_, ends_const fun _ => rfl⟩
    cases error <;> rintro _ _ ⟨⟩
  | cons form forms ih =>
    by_cases hchanges : form.changes = true
    · have hsame := fun fuel mode => process_changes s hchanges fuel 0 mode .check
      cases hform : s.process 0 .check form with
      | error e => exact comparable_of_refused fun fuel mode => (hsame fuel mode).trans hform
      | ok result =>
        obtain ⟨outcome, next⟩ := result
        exact (ih (h.process hform)).cons (fun fuel => (hsame fuel .check).trans hform)
          (matches_of_changes hchanges hform)
          (ends_const fun fuel => (hsame fuel .eval).trans hform)
    · cases form with
      | define | declare => exact absurd rfl hchanges
      | expr t span => exact h.comparable_expr (ih h) t span

/-! ## What a run leaves behind -/

/-- How a run ends if it accepts the forms `before` and no more, and `rest` come after them. -/
structure Stops (s : Session) (fuel : Nat) (mode : Mode) (error : Option ReadError)
    (before rest : List Form) (t : Transcript) (s' : Session) : Prop where
  /-- Every accepted form has its outcome. -/
  outcomes : t.outcomes.length = before.length
  /-- The accepted definitions and declarations lead to the same session alone, in any mode. -/
  session : ∃ outcomes, ∀ fuel' mode', s.runForms fuel' mode' none (before.filter Form.changes) =
    .ok (⟨outcomes, none⟩, s')
  /-- The error is that of the form that comes next, in the session that the run ends in. -/
  error : match rest with
    | [] => t.error = error.map .read
    | form :: _ => ∃ e, s'.process fuel mode form = .error (.error e) ∧ t.error = some e

/-- A run stops at the first form that fails. -/
theorem stops_of_runForms {fuel : Nat} {mode : Mode} {t : Transcript} {s' : Session}
    (h : s.runForms fuel mode error forms = .ok (t, s')) :
    ∃ before rest, forms = before ++ rest ∧ s.Stops fuel mode error before rest t s' := by
  induction forms generalizing s t with
  | nil =>
    cases h
    exact ⟨[], [], rfl, rfl, ⟨[], fun _ _ => rfl⟩, rfl⟩
  | cons form forms ih =>
    rcases runForms_cons_eq_ok.mp h with
      ⟨e, hform, rfl, rfl⟩ | ⟨outcome, next, t, hform, hnext, rfl⟩
    · exact ⟨[], form :: forms, rfl, rfl, ⟨[], fun _ _ => rfl⟩, e, hform, rfl⟩
    · obtain ⟨before, rest, rfl, houtcomes, ⟨outcomes, hsession⟩, herror⟩ := ih hnext
      refine ⟨form :: before, rest, rfl, congrArg Nat.succ houtcomes, ?_, herror⟩
      by_cases hchanges : form.changes = true
      · refine ⟨outcome :: outcomes, fun fuel' mode' => ?_⟩
        rw [List.filter_cons_of_pos hchanges, runForms,
          process_changes s hchanges fuel' fuel mode' mode, hform]
        dsimp only
        rw [hsession]
        rfl
      · -- an expression has left the session as it was
        obtain rfl : next = s := by
          cases form with
          | define | declare => exact absurd rfl hchanges
          | expr t span => exact process_expr_ok hform
        rw [List.filter_cons_of_neg hchanges]
        exact ⟨outcomes, hsession⟩

/-- What the runs of a source text, which consists of the forms and possibly an error after them,
have to do with each other. -/
structure ModesAgree (s : Session) (source : String) (forms : List Form)
    (error : Option ReadError) : Prop where
  reads : (Reader.ofString source).Gives forms error
  run : ∀ fuel mode, s.run fuel mode source = s.runForms fuel mode error forms
  /-- Evaluation comes to an answer, which compares to that of checking. -/
  compared : ∃ answer, s.Compared forms error answer ∧
    Ends (.error .outOfFuel) (s.run · .eval source) answer
  /-- In both modes the session is that of the definitions and declarations accepted. -/
  stops : ∀ fuel mode t s', s.run fuel mode source = .ok (t, s') →
    ∃ before rest, forms = before ++ rest ∧ s.Stops fuel mode error before rest t s'

/-- **Both modes agree.** In a session reached by any forms, evaluating a source text ends. It gives
outcomes with the same names and types as checking, the same error and the same session; or it stops
at an expression that type checks but meets an axiom without a definition, with the outcomes and the
session of checking up to there. In both modes the session that is left depends on the accepted
definitions and declarations alone. -/
theorem Reached.modes_agree {accepted : List Form} (h : Reached accepted s) (source : String) :
    ∃ forms error, s.ModesAgree source forms error := by
  obtain ⟨forms, error, hgives, -⟩ := Reader.exists_gives (.ofString source)
  have hrun : ∀ fuel mode, s.run fuel mode source = s.runForms fuel mode error forms :=
    fun fuel mode => run_eq hgives s
  refine ⟨forms, error, hgives, hrun, ?_, fun fuel mode t s' hs' => ?_⟩
  · obtain ⟨answer, hcompared, hends⟩ := h.sound.comparable forms error
    refine ⟨answer, hcompared, ?_⟩
    rw [funext fun fuel => hrun fuel .eval]
    exact hends
  · rw [hrun] at hs'
    exact stops_of_runForms hs'

/-- The axiom `c` is an expression that type checks and has no value. -/
theorem Reached.modes_agree_axiom :
    ∃ source c s', source = "(axiom c nat) (succ zero) c" ∧ c = Ident.named "c" ∧
      ({} : Session).run 0 .check source = .ok (⟨[.declared c .nat, .typed (.succ .zero) .nat,
        .typed (.fvar c) .nat], none⟩, s') ∧
      ({} : Session).run 9 .eval source = .ok (⟨[.declared c .nat, .evaluated (.succ .zero) .nat],
        some (.eval (.unresolved c) ⟨26, 27⟩)⟩, s') ∧
      ∃ forms error, ({} : Session).ModesAgree source forms error := by
  let s' : Session := ⟨Context.empty.declare (.named "c") .nat, (∅ : ConstSubst).erase (.named "c")⟩
  have hforms : (Reader.ofString "(axiom c nat) (succ zero) c").Gives
      [.declare (.named "c") .nat ⟨0, 13⟩, .expr (.succ .zero) ⟨14, 25⟩,
        .expr (.fvar (.named "c")) ⟨26, 27⟩] none :=
    Reader.program_iff_gives.mp ⟨⟨⟨[], 27⟩, 27, none, 27⟩, by decide +kernel⟩
  have hsucc : typeCheck (.succ .zero) s'.ctx = .ok ⟨∅, .nat⟩ := by
    refine typeCheck_eq_ok.mpr ⟨{}, {}, rfl, ?_⟩
    rw [inferTerm_succ fun ⟨_, h⟩ => nomatch h]
    exact InferM.bind_eq_ok.mpr ⟨_, _, rfl, InferM.bind_eq_ok.mpr
      ⟨_, _, InferM.equate_eq_ok.mpr ⟨unify_nat_nat _, rfl⟩, rfl⟩⟩
  have hc : typeCheck (.fvar (.named "c")) s'.ctx = .ok ⟨∅, .nat⟩ :=
    typeCheck_eq_ok.mpr ⟨{}, {}, rfl, rfl⟩
  refine ⟨_, _, s', rfl, rfl, ?_, ?_, Reached.start.modes_agree _⟩
  · have hlast : s'.process 0 .check (.expr (.fvar (.named "c")) ⟨26, 27⟩) =
        .ok (.typed (.fvar (.named "c")) .nat, s') := by
      rw [process_check_eq, infer_of_typeCheck hc]
      rfl
    have hmiddle : s'.process 0 .check (.expr (.succ .zero) ⟨14, 25⟩) =
        .ok (.typed (.succ .zero) .nat, s') := by
      rw [process_check_eq, infer_of_typeCheck hsucc]
      rfl
    rw [run_eq hforms]
    refine runForms_cons_eq_ok.mpr (.inr ⟨_, s', ⟨[_, _], none⟩, rfl, ?_, rfl⟩)
    refine runForms_cons_eq_ok.mpr (.inr ⟨_, s', ⟨[_], none⟩, hmiddle, ?_, rfl⟩)
    exact runForms_cons_eq_ok.mpr (.inr ⟨_, s', _, hlast, rfl, rfl⟩)
  · have hlast : s'.process 9 .eval (.expr (.fvar (.named "c")) ⟨26, 27⟩) =
        .error (.error (.eval (.unresolved (.named "c")) ⟨26, 27⟩)) := by
      rw [process_eval_eq, infer_of_typeCheck hc]
      rfl
    have hmiddle : s'.process 9 .eval (.expr (.succ .zero) ⟨14, 25⟩) =
        .ok (.evaluated (.succ .zero) .nat, s') := by
      rw [process_eval_eq, infer_of_typeCheck hsucc]
      rfl
    rw [run_eq hforms]
    refine runForms_cons_eq_ok.mpr (.inr ⟨_, s', ⟨[_], some _⟩, rfl, ?_, rfl⟩)
    refine runForms_cons_eq_ok.mpr (.inr ⟨_, s', ⟨[], some _⟩, hmiddle, ?_, rfl⟩)
    exact runForms_cons_eq_ok.mpr (.inl ⟨_, hlast, rfl, rfl⟩)

end Session

end SystemT
