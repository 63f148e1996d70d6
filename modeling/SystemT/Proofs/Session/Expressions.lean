import SystemT.Proofs.Reader.Expressions
import SystemT.Proofs.Session.Sources

/-!
# Types of expressions

The type of an expression that is the whole of a text is found by reading a term, and when the text
is checked, by reading forms. The two ways of reading agree, and so do the types
(`Session.reading_paths_agree`).
-/

namespace SystemT

namespace Session

variable {s s' : Session} {fuel : Nat} {source : String} {t : Term} {A : Ty}

theorem typeOf_eq_ok : s.typeOf source = .ok A ↔
    ∃ t, Term.ofString? source = .ok t ∧ s.infer t ⟨0, source.utf8ByteSize⟩ = .ok A := by
  rw [typeOf]
  cases Term.ofString? source with
  | error e => exact ⟨nofun, nofun⟩
  | ok t =>
    constructor
    · intro h
      exact ⟨t, rfl, h⟩
    · rintro ⟨_, ⟨⟩, h⟩
      exact h

/-- The type of a term does not depend on where the term stands. -/
theorem infer_ok_place {span span' : Span} (h : s.infer t span = .ok A) :
    s.infer t span' = .ok A := by
  obtain ⟨r, hr, rfl⟩ := infer_eq_ok h
  exact infer_of_typeCheck hr

/-- A single outcome without an error comes from a single form. -/
theorem runForms_single {error : Option ReadError} {forms : List Form} {outcome : Outcome}
    (h : s.runForms fuel .check error forms = .ok (⟨[outcome], none⟩, s')) :
    ∃ form, forms = [form] ∧ error = none ∧ s.process fuel .check form = .ok (outcome, s') := by
  cases forms with
  | nil => cases h
  | cons form forms =>
    obtain ⟨_, _, ⟨⟩, _⟩ | ⟨_, next, ⟨outcomes, failure⟩, hprocess, hrest, ht⟩ :=
      runForms_cons_eq_ok.mp h
    cases ht
    cases forms with
    | nil =>
      cases error with
      | some e => cases hrest
      | none =>
        cases hrest
        exact ⟨form, rfl, rfl, hprocess⟩
    | cons form' forms =>
      obtain ⟨_, _, ⟨⟩, _⟩ | ⟨_, _, _, _, _, ⟨⟩⟩ := runForms_cons_eq_ok.mp hrest

/-- **The reading paths agree.** In every place of every text, an expression is read as a form if
and only if it is read as a term, up to the same place, and unless a declaration comes next, the one
fails as the other does. So a text is an expression of some type if and only if checking it reports
this type and nothing else. -/
theorem reading_paths_agree :
    (∀ source i r, Reader.Stands source i r →
      (∀ t r', (∃ span, Reader.form r = .ok (.expr t span) r') ↔ Reader.term r = .ok t r') ∧
      (¬(Tape.ofString source).Declares i →
        ∀ e r', Reader.form r = .error e r' ↔ Reader.term r = .error e r')) ∧
    ∀ (s : Session) fuel source A, s.typeOf source = .ok A ↔
      ∃ t s', s.run fuel .check source = .ok (⟨[.typed t A], none⟩, s') := by
  constructor
  · intro source i r hr
    exact ⟨hr.form_expr_iff, hr.form_error_iff⟩
  · intro s fuel source A
    rw [typeOf_eq_ok]
    constructor
    · rintro ⟨t, hread, hinfer⟩
      obtain ⟨span, hgives⟩ := Reader.ofString?_eq_ok_iff_gives.mp hread
      refine ⟨t, s, ?_⟩
      rw [run_eq hgives, runForms, process_check_eq, infer_ok_place hinfer]
      rfl
    · rintro ⟨t, s', hrun⟩
      obtain ⟨forms, error, hgives, -⟩ := Reader.exists_gives (.ofString source)
      rw [run_eq hgives] at hrun
      obtain ⟨form, rfl, rfl, hprocess⟩ := runForms_single hrun
      cases form with
      | define x u span =>
        rw [process_define_eq] at hprocess
        obtain ⟨B, -, hprocess⟩ := bind_eq_ok.mp hprocess
        obtain ⟨d, -, houtcome⟩ := bind_eq_ok.mp hprocess
        cases houtcome
      | declare x B span => cases hprocess
      | expr u span =>
        rw [process_check_eq] at hprocess
        obtain ⟨B, hinfer, houtcome⟩ := bind_eq_ok.mp hprocess
        cases houtcome
        exact ⟨t, Reader.ofString?_eq_ok_iff_gives.mpr ⟨span, hgives⟩, infer_ok_place hinfer⟩

/-- A text that is an expression, and one that begins with neither an expression nor a
declaration. -/
theorem reading_paths_agree_start :
    (Reader.Stands "(succ x)" 0 (.ofString "(succ x)") ∧
      ∃ span, Reader.form (.ofString "(succ x)") =
        .ok (.expr (.succ (.fvar (.named "x"))) span) ⟨⟨[], 8⟩, 8, none, 8⟩) ∧
    Reader.Stands ")" 0 (.ofString ")") ∧ ¬(Tape.ofString ")").Declares 0 ∧
      Reader.form (.ofString ")") =
        .error ⟨.unexpectedRParen, ⟨0, 1⟩⟩ ⟨⟨[], 1⟩, 1, none, 1⟩ := by
  have hexpr := Reader.stands_start "(succ x)"
  have hrparen := Reader.stands_start ")"
  have hdeclares : ¬(Tape.ofString ")").Declares 0 := by
    have hitems : (Tape.ofString ")").items = .ok (.rparen, ⟨0, 1⟩) :: Cursor.items ⟨[], 1⟩ :=
      Cursor.items_of_next? (by rfl)
    rintro ⟨_, _, _, hitem, -⟩
    rw [hitems] at hitem
    cases hitem
  refine ⟨⟨hexpr, ?_⟩, hrparen, hdeclares, ?_⟩
  · exact ((reading_paths_agree.1 _ _ _ hexpr).1 _ _).mpr (by decide +kernel)
  · exact ((reading_paths_agree.1 _ _ _ hrparen).2 hdeclares _ _).mpr (by decide +kernel)

end Session

end SystemT
