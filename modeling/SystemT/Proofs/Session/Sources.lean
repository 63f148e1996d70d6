import SystemT.Proofs.Reader.Forms
import SystemT.Proofs.Session.Sound

/-!
# Sources

Running a source text reads a form, processes it, and goes on. Reading does not depend on what forms
lead to, so that a run is the same as reading all forms first and processing them after that
(`Session.run_eq`).

If a text is run without an error, a further text may be run in the session that it leads to, or it
may be written on the next line and run together with the first. Both give the same, but for the
places of errors (`Session.run_lines`).
-/

namespace SystemT

/-- The same transcript, with the outcomes of earlier forms in front. -/
def Transcript.after (outcomes : List Outcome) (t : Transcript) : Transcript :=
  ⟨outcomes ++ t.outcomes, t.error⟩

theorem Transcript.after_after (outcomes outcomes' : List Outcome) (t : Transcript) :
    (t.after outcomes').after outcomes = t.after (outcomes ++ outcomes') := by
  simp only [after, List.append_assoc]

namespace Session

variable {fuel : Nat} {mode : Mode}

/-! ## Processing forms -/

/-- Process forms up to the first that fails. If none does, `error` is what keeps further ones from
being read. -/
def runForms (s : Session) (fuel : Nat) (mode : Mode) (error : Option ReadError) :
    List Form → Except Fault (Transcript × Session)
  | [] => .ok (⟨[], error.map .read⟩, s)
  | form :: forms =>
    match s.process fuel mode form with
    | .error (.fault f) => .error f
    | .error (.error e) => .ok (⟨[], some e⟩, s)
    | .ok (outcome, next) =>
      (next.runForms fuel mode error forms).map (Prod.map (.after [outcome]) id)

/-- The first form fails, or it leads to a session in which the others are processed. -/
theorem runForms_cons_eq_ok {s s' : Session} {error : Option ReadError} {form : Form}
    {forms : List Form} {t : Transcript} :
    s.runForms fuel mode error (form :: forms) = .ok (t, s') ↔
      (∃ e, s.process fuel mode form = .error (.error e) ∧ t = ⟨[], some e⟩ ∧ s' = s) ∨
      ∃ outcome next t', s.process fuel mode form = .ok (outcome, next) ∧
        next.runForms fuel mode error forms = .ok (t', s') ∧ t = t'.after [outcome] := by
  rw [runForms]
  cases s.process fuel mode form with
  | error e =>
    cases e with
    | error e =>
      constructor
      · rintro ⟨⟩
        exact .inl ⟨e, rfl, rfl, rfl⟩
      · rintro (⟨_, ⟨⟩, rfl, rfl⟩ | ⟨_, _, _, ⟨⟩, _⟩)
        rfl
    | fault f =>
      constructor
      · rintro ⟨⟩
      · rintro (⟨_, ⟨⟩, _⟩ | ⟨_, _, _, ⟨⟩, _⟩)
  | ok result =>
    obtain ⟨outcome, next⟩ := result
    dsimp only
    constructor
    · intro h
      cases hnext : next.runForms fuel mode error forms with
      | error f =>
        rw [hnext] at h
        cases h
      | ok result =>
        rw [hnext] at h
        cases h
        exact .inr ⟨outcome, next, result.1, rfl, hnext, rfl⟩
    · rintro (⟨_, ⟨⟩, _⟩ | ⟨_, _, t', ⟨⟩, hnext, rfl⟩)
      rw [hnext]
      rfl

theorem advance_eq (s : Session) (fuel : Nat) (mode : Mode) (r : Reader) :
    s.advance fuel mode r =
      match Reader.form? r with
      | .error e _ => .error (.error (.read e))
      | .ok none _ => .ok none
      | .ok (some form) r' => s.process fuel mode form >>= fun result =>
        .ok (some (result.1, result.2, r')) := by
  rw [Reader.form?_eq, advance]
  cases Reader.atEnd r with
  | error e r' => rfl
  | ok stop r' =>
    cases stop with
    | true => rfl
    | false =>
      dsimp only
      cases Reader.form r' <;> rfl

/-- The forms that a reader gives are processed one after the other. -/
theorem runWithin_eq {r : Reader} {forms : List Form} {error : Option ReadError}
    (h : r.Gives forms error) {limit : Nat} (hlimit : r.left < limit) (s : Session)
    (outcomes : List Outcome) : runWithin limit s fuel mode r outcomes =
      (s.runForms fuel mode error forms).map (Prod.map (.after outcomes.reverse) id) := by
  induction h generalizing limit s outcomes with
  | done hform =>
    obtain ⟨limit, rfl⟩ := Nat.exists_eq_add_of_lt hlimit
    rw [runWithin, advance_eq, hform]
    simp [runForms, Except.map, Transcript.after]
  | failed hform =>
    obtain ⟨limit, rfl⟩ := Nat.exists_eq_add_of_lt hlimit
    rw [runWithin, advance_eq, hform]
    simp [runForms, Except.map, Transcript.after]
  | @more r r' form forms error hform _ ih =>
    obtain ⟨limit, rfl⟩ := Nat.exists_eq_add_of_lt hlimit
    have hless := (Reader.left_form?_lt hform).1
    rw [runWithin, advance_eq, hform, runForms]
    dsimp only
    cases s.process fuel mode form with
    | error e =>
      cases e with
      | error e => simp [Except.map, Transcript.after, bind, Except.bind]
      | fault f => rfl
    | ok result =>
      obtain ⟨outcome, next⟩ := result
      show runWithin (r.left + limit) next fuel mode r' (outcome :: outcomes) = _
      rw [ih (by omega) next (outcome :: outcomes), List.reverse_cons]
      dsimp only
      cases next.runForms fuel mode error forms with
      | error f => rfl
      | ok result => simp only [Except.map, Prod.map, id, Transcript.after_after]

theorem run_eq {source : String} {forms : List Form} {error : Option ReadError}
    (h : (Reader.ofString source).Gives forms error) (s : Session) :
    s.run fuel mode source = s.runForms fuel mode error forms := by
  rw [run, runWithin_eq h (Reader.left_ofString_lt_budget source)]
  cases s.runForms fuel mode error forms with
  | error f => rfl
  | ok result => rfl

/-! ## Moving places -/

end Session

/-- The same error, `d` bytes later. -/
def SessionError.move (d : Nat) : SessionError → SessionError
  | read e => read (e.move d)
  | type e span => type e (span.move d)
  | eval e span => eval e (span.move d)

/-- The same transcript, with its error `d` bytes later. -/
def Transcript.move (d : Nat) (t : Transcript) : Transcript :=
  ⟨t.outcomes, t.error.map (.move d)⟩

theorem SessionError.move_zero (e : SessionError) : e.move 0 = e := by cases e <;> rfl

theorem SessionError.move_move (d d' : Nat) (e : SessionError) :
    (e.move d).move d' = e.move (d + d') := by
  cases e <;> simp only [move, ReadError.move, Span.move, Nat.add_assoc]

theorem Transcript.move_zero (t : Transcript) : t.move 0 = t := by
  obtain ⟨outcomes, error⟩ := t
  cases error with
  | none => rfl
  | some e => simp only [move, Option.map, SessionError.move_zero]

theorem Transcript.move_move (d d' : Nat) (t : Transcript) :
    (t.move d).move d' = t.move (d + d') := by
  obtain ⟨outcomes, error⟩ := t
  cases error with
  | none => rfl
  | some e => simp only [move, Option.map, SessionError.move_move]

namespace Session

theorem infer_move (s : Session) (t : Term) (span : Span) (d : Nat) :
    s.infer t (span.move d) = (s.infer t span).mapError (Failure.map (.move d)) := by
  rw [infer, infer]
  cases typeCheck t s.ctx with
  | ok r => rfl
  | error e => cases e <;> rfl

theorem expand_move (s : Session) (t : Term) (d : Nat) :
    s.expand t = (s.expand t).mapError (Failure.map (.move d)) := by
  rw [expand]
  cases t.substConsts? s.defs <;> rfl

theorem evaluate_move (r : Except (Failure EvalError) Term) (span : Span) (d : Nat) :
    r.mapError (Failure.map (.eval · (span.move d))) =
      (r.mapError (Failure.map (.eval · span))).mapError (Failure.map (SessionError.move d)) := by
  cases r with
  | ok v => rfl
  | error e => cases e <;> rfl

theorem mapError_bind {ε ε' α β : Type} (f : ε → ε') (x : Except ε α) (next : α → Except ε β) :
    (x >>= next).mapError f = x.mapError f >>= fun a => (next a).mapError f := by
  cases x <;> rfl

/-- A form that stands elsewhere leads to the same. -/
theorem process_move (s : Session) (fuel : Nat) (mode : Mode) (form : Form) (d : Nat) :
    s.process fuel mode (form.move d) =
      (s.process fuel mode form).mapError (Failure.map (.move d)) := by
  cases form with
  | declare x A span => rfl
  | define x t span =>
    rw [Form.move, process_define_eq, process_define_eq, infer_move, mapError_bind]
    congr 1
    funext A
    rw [mapError_bind, ← expand_move]
    rfl
  | expr t span =>
    cases mode with
    | check =>
      rw [Form.move, process_check_eq, process_check_eq, infer_move, mapError_bind]
      rfl
    | eval =>
      rw [Form.move, process_eval_eq, process_eval_eq, infer_move, mapError_bind]
      congr 1
      funext A
      rw [mapError_bind, ← expand_move]
      congr 1
      funext u
      rw [mapError_bind, evaluate_move]
      rfl

theorem runForms_move (s : Session) (fuel : Nat) (mode : Mode) (error : Option ReadError)
    (forms : List Form) (d : Nat) :
    s.runForms fuel mode (error.map (.move d)) (forms.map (.move d)) =
      (s.runForms fuel mode error forms).map (Prod.map (.move d) id) := by
  induction forms generalizing s with
  | nil => cases error <;> rfl
  | cons form forms ih =>
    rw [List.map_cons, runForms, runForms, process_move]
    cases s.process fuel mode form with
    | error e => cases e <;> rfl
    | ok result =>
      obtain ⟨outcome, next⟩ := result
      dsimp only [Except.mapError]
      rw [ih next]
      cases next.runForms fuel mode error forms <;> rfl

/-! ## Joining texts -/

/-- If no form fails, then no error has kept further forms from being read, and these are processed
in the session that comes out. -/
theorem runForms_append {s s' : Session} {error : Option ReadError} {forms : List Form}
    {outcomes : List Outcome} (h : s.runForms fuel mode error forms = .ok (⟨outcomes, none⟩, s')) :
    error = none ∧ ∀ error' forms', s.runForms fuel mode error' (forms ++ forms') =
      (s'.runForms fuel mode error' forms').map (Prod.map (.after outcomes) id) := by
  induction forms generalizing s outcomes with
  | nil =>
    cases error with
    | some e => cases h
    | none =>
      cases h
      refine ⟨rfl, fun error' forms' => ?_⟩
      rw [List.nil_append]
      cases s'.runForms fuel mode error' forms' <;> rfl
  | cons form forms ih =>
    rcases runForms_cons_eq_ok.mp h with ⟨e, -, ⟨⟩, -⟩ | ⟨outcome, next, t, hform, hnext, ht⟩
    obtain ⟨outcomes', error''⟩ := t
    cases ht
    obtain ⟨hnone, happend⟩ := ih hnext
    refine ⟨hnone, fun error' forms' => ?_⟩
    rw [List.cons_append, runForms, hform]
    dsimp only
    rw [happend]
    cases s'.runForms fuel mode error' forms' with
    | error f => rfl
    | ok result => simp only [Except.map, Prod.map, id, Transcript.after_after]

/-- Source texts are run one after the other, and none of them reports an error. -/
inductive Enters (fuel : Nat) (mode : Mode) : Session → List String → List Outcome → Session → Prop
  | nil (s : Session) : Enters fuel mode s [] [] s
  | cons {s next s' : Session} {a : String} {as : List String} {outcomes outcomes' : List Outcome} :
    s.run fuel mode a = .ok (⟨outcomes, none⟩, next) → Enters fuel mode next as outcomes' s' →
    Enters fuel mode s (a :: as) (outcomes ++ outcomes') s'

/-- The texts on lines of their own, in front of the text `b`. -/
def lines (as : List String) (b : String) : String := as.foldr (fun a text => a ++ "\n" ++ text) b

/-- The length of the lines in front. -/
def linesSize (as : List String) : Nat := as.foldr (fun a size => size + (a.utf8ByteSize + 1)) 0

theorem run_line {s s' : Session} {a b : String} {outcomes : List Outcome}
    (h : s.run fuel mode a = .ok (⟨outcomes, none⟩, s')) :
    s.run fuel mode (a ++ "\n" ++ b) = (s'.run fuel mode b).map
      (Prod.map (fun t => (t.move (a.utf8ByteSize + 1)).after outcomes) id) := by
  obtain ⟨forms, error, ha, -⟩ := Reader.exists_gives (.ofString a)
  obtain ⟨forms', error', hb, -⟩ := Reader.exists_gives (.ofString b)
  rw [run_eq ha] at h
  obtain ⟨rfl, happend⟩ := runForms_append h
  rw [run_eq (Reader.gives_append ha hb), happend, runForms_move, run_eq hb]
  cases s'.runForms fuel mode error' forms' <;> rfl

/-- **Sources compose.** If a text is run without an error, then running it with a further text on
the next line gives its outcomes and those of the further text, run in the session that comes out of
the first; and this leaves the same session and the same error, as many bytes later as come before
the further text. It is the same for any number of texts that are run one after the other. -/
theorem run_lines :
    (∀ (s s' : Session) (fuel : Nat) (mode : Mode) (a b : String) (outcomes : List Outcome),
      s.run fuel mode a = .ok (⟨outcomes, none⟩, s') →
      s.run fuel mode (a ++ "\n" ++ b) = (s'.run fuel mode b).map
        (Prod.map (fun t => (t.move (a.utf8ByteSize + 1)).after outcomes) id)) ∧
    ∀ (s s' : Session) (fuel : Nat) (mode : Mode) (as : List String) (b : String)
      (outcomes : List Outcome), Enters fuel mode s as outcomes s' →
      s.run fuel mode (lines as b) = (s'.run fuel mode b).map
        (Prod.map (fun t => (t.move (linesSize as)).after outcomes) id) := by
  refine ⟨fun _ _ _ _ _ _ _ => run_line, fun s s' fuel mode as b outcomes h => ?_⟩
  induction h with
  | nil s =>
    show s.run fuel mode b = _
    cases s.run fuel mode b with
    | error f => rfl
    | ok result =>
      show _ = Except.ok (Prod.map (fun t => (t.move 0).after []) id result)
      simp only [Transcript.move_zero]
      rfl
  | @cons s next s' a as outcomes outcomes' hrun _ ih =>
    show s.run fuel mode (a ++ "\n" ++ lines as b) = _
    rw [run_line hrun, ih]
    cases s'.run fuel mode b with
    | error f => rfl
    | ok result =>
      have hsize : linesSize (a :: as) = linesSize as + (a.utf8ByteSize + 1) := rfl
      rw [hsize]
      simp only [Except.map, Prod.map, ← Transcript.after_after, ← Transcript.move_move]
      rfl

/-- The first text ends in a comment, which ends with the line; the parenthesis that should not be
there is the first character of the third line. -/
theorem run_lines_comment :
    ∃ a a' s' s'', a = "(axiom c nat) ; (axiom" ∧ a' = "(axiom d bool)" ∧
      ({} : Session).run 0 .eval a = .ok (⟨[.declared (.named "c") .nat], none⟩, s') ∧
      ({} : Session).run 0 .eval (a ++ "\n" ++ a') =
        .ok (⟨[.declared (.named "c") .nat, .declared (.named "d") .bool], none⟩, s'') ∧
      ({} : Session).run 0 .eval (lines [a, a'] ")") =
        .ok (⟨[.declared (.named "c") .nat, .declared (.named "d") .bool],
          some (.read ⟨.unexpectedRParen, ⟨38, 39⟩⟩)⟩, s'') := by
  generalize hs' : Session.mk (Context.empty.declare (.named "c") .nat)
    ((∅ : ConstSubst).erase (.named "c")) = s'
  generalize hs'' :
    Session.mk (s'.ctx.declare (.named "d") .bool) (s'.defs.erase (.named "d")) = s''
  have ha : ({} : Session).run 0 .eval "(axiom c nat) ; (axiom" =
      .ok (⟨[.declared (.named "c") .nat], none⟩, s') := by
    have hforms : (Reader.ofString "(axiom c nat) ; (axiom").Gives
        [.declare (.named "c") .nat ⟨0, 13⟩] none :=
      Reader.program_iff_gives.mp ⟨⟨⟨" ; (axiom".toList, 13⟩, 22, none, 13⟩, by decide +kernel⟩
    subst hs'
    exact run_eq hforms {}
  have ha' : s'.run 0 .eval "(axiom d bool)" =
      .ok (⟨[.declared (.named "d") .bool], none⟩, s'') := by
    have hforms : (Reader.ofString "(axiom d bool)").Gives
        [.declare (.named "d") .bool ⟨0, 14⟩] none :=
      Reader.program_iff_gives.mp ⟨⟨⟨[], 14⟩, 14, none, 14⟩, by decide +kernel⟩
    subst hs''
    exact run_eq hforms s'
  have hb : s''.run 0 .eval ")" = .ok (⟨[], some (.read ⟨.unexpectedRParen, ⟨0, 1⟩⟩)⟩, s'') := by
    have hforms : (Reader.ofString ")").Gives [] (some ⟨.unexpectedRParen, ⟨0, 1⟩⟩) := .failed rfl
    exact run_eq hforms s''
  refine ⟨_, _, s', s'', rfl, rfl, ha, ?_, ?_⟩
  · rw [run_lines.1 _ _ _ _ _ "(axiom d bool)" _ ha, ha']
    rfl
  · rw [run_lines.2 _ _ _ _ _ ")" _ (.cons ha (.cons ha' (.nil s''))), hb]
    rfl

end Session

end SystemT
