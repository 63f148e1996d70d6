import SystemT.Proofs.Reader.Forms
import SystemT.Proofs.Reader.Replay

/-!
# Expressions as terms and as forms

An expression is read in two ways. Read as a term, its first token is taken at once. Read as a form,
the first token is looked at, and if it opens a list, the head decides what the form is. Both come
to the same in every place of a text, up to lists that begin with `def` or `axiom`
(`Reader.Stands.form_expr_iff`, `Reader.Stands.form_error_iff`).

Neither of them looks at a token that it does not take (`Reader.Bare`). So whether the first token
had been looked at before makes no difference, and a text is read as a term if and only if it gives
this expression and nothing else (`Reader.ofString?_eq_ok_iff_gives`).
-/

namespace SystemT

/-! ## On a tape -/

namespace Tape

variable {tape : Tape} {i j : Nat} {e : ReadError}

/-- A list that begins with `def` or `axiom` comes next. -/
def Declares (tape : Tape) (i : Nat) : Prop :=
  ∃ opened headSpan head, tape.items[i]? = some (.ok (.lparen, opened)) ∧
    tape.items[i + 1]? = some (.ok (.symbol head, headSpan)) ∧ (head = "def" ∨ head = "axiom")

/-- What comes after a computation matters only for what it gives. -/
theorem bind_congr_of_ok {α β : Type} {act : TapeM α} {next next' : α → TapeM β}
    (h : ∀ a j, act i = some (.ok a, j) → next a j = next' a j) :
    (act >>= next) i = (act >>= next') i := by
  show (act i).bind _ = (act i).bind _
  rcases hact : act i with - | ⟨e | a, j⟩
  · rfl
  · rfl
  · exact h a j hact

theorem of_bind_eq_ok {α β : Type} {act : TapeM α} {next : α → TapeM β} {b : β} {k : Nat}
    (h : (act >>= next) i = some (.ok b, k)) :
    ∃ a j, act i = some (.ok a, j) ∧ next a j = some (.ok b, k) := by
  rcases hact : act i with - | ⟨e | a, j⟩
  · have hnone : (act >>= next) i = none := by
      show (act i).bind _ = none
      rw [hact]
      rfl
    cases hnone.symm.trans h
  · cases (bind_of_error hact).symm.trans h
  · exact ⟨a, j, rfl, (bind_of_ok hact).symm.trans h⟩

theorem next_eq_ok {item : Token × Span} (h : tape.next i = some (.ok item, j)) :
    tape.items[i]? = some (.ok item) ∧ j = i + 1 := by
  unfold next at h
  split at h
  · cases h
  · next hitem =>
    cases h
    exact ⟨hitem, rfl⟩
  · cases h

theorem symbol_eq_ok {s : String} {span : Span} (h : tape.symbol i = some (.ok (s, span), j)) :
    tape.items[i]? = some (.ok (.symbol s, span)) := by
  obtain ⟨⟨t, place⟩, k, hnext, hrest⟩ := of_bind_eq_ok h
  cases t with
  | symbol s' =>
    cases hrest
    exact (next_eq_ok hnext).1
  | lparen | rparen | int => cases hrest

/-- Where no declaration comes next, a form is a term with its range. -/
theorem form_eq {t : Token} {first : Span} (hitem : tape.items[i]? = some (.ok (t, first)))
    (h : ¬tape.Declares i) : tape.form i = (tape.term >>= fun t =>
      tape.spanFrom first.start >>= fun span => pure (.expr t span)) i := by
  have hpeek : tape.peek i = some (.ok (some (t, first)), i) := by rw [peek, hitem]
  cases t with
  | lparen =>
    rw [form, bind_of_ok hpeek, term, termWithin, bind_assoc]
    refine bind_congr_of_ok fun item j hnext => ?_
    obtain ⟨hitem', rfl⟩ := next_eq_ok hnext
    obtain ⟨⟨⟩⟩ := hitem.symm.trans hitem'
    dsimp only
    rw [bind_assoc]
    refine bind_congr_of_ok ?_
    rintro ⟨head, headSpan⟩ k hsymbol
    have hhead := symbol_eq_ok hsymbol
    dsimp only
    unfold compoundForm
    split
    · exact absurd ⟨_, _, _, hitem, hhead, .inl rfl⟩ h
    · exact absurd ⟨_, _, _, hitem, hhead, .inr rfl⟩ h
    · rfl
  | rparen | symbol | int =>
    rw [form, bind_of_ok hpeek]

theorem compoundTerm_of_declares {head : String} (h : head = "def" ∨ head = "axiom") (span : Span)
    (operand : TapeM Term) (fuel i : Nat) :
    tape.compoundTerm operand fuel head span i = some (.error ⟨.unknownForm head, span⟩, i) := by
  rw [compoundTerm]
  rcases h with rfl | rfl
  · rfl
  · rfl

/-- A list that begins with `def` or `axiom` is no term, and if it is a form, no expression. -/
theorem Declares.reads (h : tape.Declares i) :
    (∃ e j, tape.term i = some (.error e, j)) ∧
    ∀ t span j, tape.form i ≠ some (.ok (.expr t span), j) := by
  obtain ⟨opened, headSpan, head, hitem, hhead, hname⟩ := h
  have hpeek : tape.peek i = some (.ok (some (.lparen, opened)), i) := by rw [peek, hitem]
  have hnext : tape.next i = some (.ok (.lparen, opened), i + 1) := by rw [next, hitem]
  have hsymbol : tape.symbol (i + 1) = some (.ok (head, headSpan), i + 2) := by
    rw [symbol, bind_of_ok (by rw [next, hhead])]
    rfl
  constructor
  · refine ⟨⟨.unknownForm head, headSpan⟩, i + 2, ?_⟩
    rw [term, termWithin, bind_of_ok hnext]
    dsimp only
    rw [bind_of_ok hsymbol]
    exact compoundTerm_of_declares hname headSpan _ _ (i + 2)
  · intro t span j hform
    rw [form, bind_of_ok hpeek] at hform
    dsimp only at hform
    rw [bind_of_ok hnext, bind_of_ok hsymbol] at hform
    -- a name, a body and a parenthesis are read before the declaration is put together
    rcases hname with rfl | rfl
    all_goals
      obtain ⟨_, _, -, hform⟩ := of_bind_eq_ok hform
      obtain ⟨_, _, -, hform⟩ := of_bind_eq_ok hform
      obtain ⟨_, _, -, hform⟩ := of_bind_eq_ok hform
      cases hform

end Tape

/-! ## Ends of terms and forms -/

namespace Reader

/-- After success no token has been looked at. -/
def Bare {α : Type} (act : ReadM α) : Prop := ∀ r a r', act r = .ok a r' → r'.peeked = none

/-- Success does not look at a token. -/
def Keeps {α : Type} (act : ReadM α) : Prop :=
  ∀ r a r', r.peeked = none → act r = .ok a r' → r'.peeked = none

section

variable {α β : Type} {act : ReadM α} {next : α → ReadM β}

theorem keeps_pure (a : α) : Keeps (pure a : ReadM α) := by
  rintro r _ _ hr ⟨⟩
  exact hr

theorem bare_throw (e : ReadError) : Bare (throw e : ReadM α) := nofun

theorem Bare.keeps (h : Bare act) : Keeps act := fun r a r' _ hact => h r a r' hact

theorem bare_bind (h : ∀ a, Bare (next a)) : Bare (act >>= next) := by
  intro r b r'' hact
  obtain ⟨a, r', -, hnext⟩ := bind_eq_ok hact
  exact h a r' b r'' hnext

theorem Bare.bind_keeps (h : Bare act) (hnext : ∀ a, Keeps (next a)) : Bare (act >>= next) := by
  intro r b r'' hact
  obtain ⟨a, r', hact, hrest⟩ := bind_eq_ok hact
  exact hnext a r' b r'' (h r a r' hact) hrest

end

theorem bare_next : Bare next := by
  intro r item r' h
  rw [next_eq] at h
  split at h
  · cases h
    rfl
  · cases h
  · cases h

theorem bare_rparen : Bare rparen := by
  refine bare_next.bind_keeps ?_
  rintro ⟨t, span⟩
  cases t with
  | rparen => exact keeps_pure _
  | lparen | symbol | int => exact (bare_throw _).keeps

theorem bare_closing {α : Type} (a : α) : Bare (closing a) :=
  bare_rparen.bind_keeps fun _ => keeps_pure a

theorem bare_fellShort {α : Type} : Bare (fellShort : ReadM α) := nofun

theorem bare_compoundTerm (operand : ReadM Term) (fuel : Nat) (head : String) (span : Span) :
    Bare (compoundTerm operand fuel head span) := by
  unfold compoundTerm
  split
  case h_2 => exact bare_bind fun _ => bare_bind fun _ => bare_bind fun t => bare_closing t
  all_goals exact bare_bind fun t => bare_closing t

theorem bare_termWithin (fuel : Nat) : Bare (termWithin fuel) := by
  cases fuel with
  | zero => exact bare_fellShort
  | succ fuel =>
    refine bare_next.bind_keeps ?_
    rintro ⟨t, span⟩
    cases t with
    | int n => exact keeps_pure _
    | symbol s => exact keeps_pure _
    | rparen => exact (bare_throw _).keeps
    | lparen => exact (bare_bind fun _ => bare_compoundTerm _ _ _ _).keeps

theorem bare_form : Bare form := by
  have hspanned : ∀ start (make : Span → Form),
      Keeps (spanFrom start >>= fun span => pure (make span)) := by
    rintro start make r _ _ hr ⟨⟩
    exact hr
  refine bare_bind fun r => bare_bind fun item? => ?_
  cases item? with
  | none => exact bare_fellShort
  | some item =>
    obtain ⟨t, first⟩ := item
    cases t with
    | rparen | symbol | int => exact (bare_termWithin _).bind_keeps fun t => hspanned _ (.expr t)
    | lparen =>
      refine bare_bind fun _ => bare_bind ?_
      rintro ⟨head, headSpan⟩
      dsimp only
      split
      · exact bare_bind fun _ => bare_bind fun t => bare_rparen.bind_keeps fun _ =>
          hspanned _ (.define _ t)
      · exact bare_bind fun _ => bare_bind fun A => bare_rparen.bind_keeps fun _ =>
          hspanned _ (.declare _ A)
      · exact (bare_compoundTerm _ _ _ _).bind_keeps fun t => hspanned _ (.expr t)

/-! ## In a place of a text -/

variable {source : String} {i : Nat} {r s r' : Reader}

/-- What is read without looking at a token that is not taken is the same wherever the reader has
looked before. -/
theorem Stands.exactly {α : Type} {act : ReadM α} {act' : TapeM α} {d : Nat}
    (hr : Stands source i r)
    (h : Replays source (Tape.ofString source).items.length d none act act') (hbare : Bare act) :
    (∃ a j, act r = .ok a (standing source j) ∧ act' i = some (.ok a, j)) ∨
    ∃ e j, act r = .error e (standing source j) ∧ act' i = some (.error e, j) := by
  rcases h i r hr nofun (Nat.le_add_left _ i) with
    ⟨a, j, r', hact, hact', hr', -⟩ | ⟨e, j, hact, hact', -⟩
  · obtain rfl := hr'.eq_standing (hbare r a r' hact)
    exact .inl ⟨a, j, hact, hact'⟩
  · exact .inr ⟨e, j, hact, hact'⟩

theorem Stands.term_cases (hr : Stands source i r) :
    (∃ t j, term r = .ok t (standing source j) ∧
      (Tape.ofString source).term i = some (.ok t, j)) ∨
    ∃ e j, term r = .error e (standing source j) ∧
      (Tape.ofString source).term i = some (.error e, j) :=
  hr.exactly replays_term (bare_bind fun _ => bare_termWithin _)

theorem Stands.form_cases (hr : Stands source i r) :
    (∃ f j, form r = .ok f (standing source j) ∧
      (Tape.ofString source).form i = some (.ok f, j)) ∨
    ∃ e j, form r = .error e (standing source j) ∧
      (Tape.ofString source).form i = some (.error e, j) :=
  hr.exactly replays_form bare_form

/-- Whether the first token has been looked at does not matter to a form. -/
theorem Stands.form_eq (hr : Stands source i r) (hs : Stands source i s) : form r = form s := by
  rcases hr.form_cases with ⟨f, j, hform, htape⟩ | ⟨e, j, hform, htape⟩
  · rcases hs.form_cases with ⟨f', j', hform', htape'⟩ | ⟨e', j', hform', htape'⟩
    · cases htape.symm.trans htape'
      rw [hform, hform']
    · cases htape.symm.trans htape'
  · rcases hs.form_cases with ⟨f', j', hform', htape'⟩ | ⟨e', j', hform', htape'⟩
    · cases htape.symm.trans htape'
    · cases htape.symm.trans htape'
      rw [hform, hform']

end Reader

namespace Tape

variable {tape : Tape} {i : Nat}

/-- Where no declaration comes next, a term is read as a form, and an error in the one is an error
in the other. -/
theorem form_of_term (h : ¬tape.Declares i) :
    (∀ t j, tape.term i = some (.ok t, j) → ∃ span, tape.form i = some (.ok (.expr t span), j)) ∧
    ∀ e j, tape.term i = some (.error e, j) → tape.form i = some (.error e, j) := by
  cases hitem : tape.items[i]? with
  | none =>
    have hterm : tape.term i = some (.error tape.endError, i) := by
      rw [term, termWithin, bind_of_error (by rw [next, hitem])]
    have hform : tape.form i = some (.error tape.endError, i) := by
      rw [form, bind_of_ok (by rw [peek, hitem])]
      rfl
    rw [hterm, hform]
    constructor
    · rintro t j ⟨⟩
    · rintro _ _ ⟨⟩
      rfl
  | some item =>
    cases item with
    | error e =>
      have hterm : tape.term i = some (.error e, i + 1) := by
        rw [term, termWithin, bind_of_error (by rw [next, hitem])]
      have hform : tape.form i = some (.error e, i + 1) := by
        rw [form, bind_of_error (by rw [peek, hitem])]
      rw [hterm, hform]
      constructor
      · rintro t j ⟨⟩
      · rintro _ _ ⟨⟩
        rfl
    | ok item =>
      rw [Tape.form_eq hitem h]
      constructor
      · intro t j hterm
        rw [bind_of_ok hterm]
        exact ⟨_, rfl⟩
      · intro e j hterm
        rw [bind_of_error hterm]

end Tape

namespace Reader

variable {source : String} {i : Nat} {r s r' : Reader}

theorem Stands.form_of_tape (hr : Stands source i r) :
    (∀ f j, (Tape.ofString source).form i = some (.ok f, j) → form r = .ok f (standing source j)) ∧
    ∀ e j, (Tape.ofString source).form i = some (.error e, j) →
      form r = .error e (standing source j) := by
  rcases hr.form_cases with ⟨f, j, hform, htape⟩ | ⟨e, j, hform, htape⟩
  · rw [hform, htape]
    refine ⟨?_, nofun⟩
    rintro _ _ ⟨⟩
    rfl
  · rw [hform, htape]
    refine ⟨nofun, ?_⟩
    rintro _ _ ⟨⟩
    rfl

/-- A form is an expression if and only if a term can be read instead. -/
theorem Stands.form_expr_iff (hr : Stands source i r) (t : Term) (r' : Reader) :
    (∃ span, form r = .ok (.expr t span) r') ↔ term r = .ok t r' := by
  by_cases hdeclares : (Tape.ofString source).Declares i
  · obtain ⟨⟨e, j, hterm⟩, hform⟩ := hdeclares.reads
    constructor
    · rintro ⟨span, hexpr⟩
      rcases hr.form_cases with ⟨f, k, hread, htape⟩ | ⟨e', k, hread, -⟩
      · cases hexpr.symm.trans hread
        exact absurd htape (hform t span k)
      · cases hexpr.symm.trans hread
    · intro ht
      rcases hr.term_cases with ⟨t', k, -, htape⟩ | ⟨e', k, hread, -⟩
      · cases hterm.symm.trans htape
      · cases ht.symm.trans hread
  · obtain ⟨hok, herror⟩ := Tape.form_of_term hdeclares
    rcases hr.term_cases with ⟨t', j, hread, htape⟩ | ⟨e, j, hread, htape⟩
    · obtain ⟨span, hform⟩ := hok t' j htape
      rw [hread, hr.form_of_tape.1 _ j hform]
      constructor
      · rintro ⟨_, ⟨⟩⟩
        rfl
      · rintro ⟨⟩
        exact ⟨span, rfl⟩
    · rw [hread, hr.form_of_tape.2 e j (herror e j htape)]
      constructor
      · rintro ⟨_, ⟨⟩⟩
      · rintro ⟨⟩

/-- Where no declaration comes next, a form fails as a term does. -/
theorem Stands.form_error_iff (hr : Stands source i r)
    (h : ¬(Tape.ofString source).Declares i) (e : ReadError) (r' : Reader) :
    form r = .error e r' ↔ term r = .error e r' := by
  obtain ⟨hok, herror⟩ := Tape.form_of_term h
  rcases hr.term_cases with ⟨t, j, hread, htape⟩ | ⟨e', j, hread, htape⟩
  · obtain ⟨span, hform⟩ := hok t j htape
    rw [hread, hr.form_of_tape.1 _ j hform]
    exact ⟨nofun, nofun⟩
  · rw [hread, hr.form_of_tape.2 e' j (herror e' j htape)]
    constructor
    · rintro ⟨⟩
      rfl
    · rintro ⟨⟩
      rfl

/-! ## A text that is one expression -/

theorem whole_eq_ok {α : Type} {act : ReadM α} {a : α} :
    whole act source = .ok a ↔
      ∃ r s, act (ofString source) = .ok a r ∧ peek r = .ok none s := by
  constructor
  · intro h
    rw [whole] at h
    split at h
    · next b s hread =>
      cases h
      obtain ⟨a, r, hact, hrest⟩ := bind_eq_ok hread
      obtain ⟨_, s, hend, hpure⟩ := bind_eq_ok hrest
      cases hpure
      rw [finish] at hend
      obtain ⟨item?, s, hpeek, hdone⟩ := bind_eq_ok hend
      cases item? with
      | none => exact ⟨r, s, hact, hpeek⟩
      | some item => cases hdone
    · cases h
  · rintro ⟨r, s, hact, hpeek⟩
    have hread : (do let a ← act; finish; pure a : ReadM α) (ofString source) = .ok a s := by
      rw [bind_of_ok hact, finish, bind_assoc, bind_of_ok hpeek]
      rfl
    rw [whole, hread]

/-- A form comes next if and only if it can be read at once. -/
theorem Stands.form?_eq_some (hr : Stands source i r) (f : Form) :
    form? r = .ok (some f) r' ↔ form r = .ok f r' := by
  have hread : form r = (peek >>= _) r := rfl
  rw [form?_eq, atEnd_eq]
  rcases hr.peek_cases with ⟨item, hitem, hpeek, -⟩ | ⟨e, -, hpeek, -⟩ | ⟨-, -, hpeek, -⟩
  · rw [hpeek, hr.form_eq (.looked hitem)]
    dsimp only [Option.isNone]
    cases form (looking source i item) with
    | error e s => exact ⟨nofun, nofun⟩
    | ok f' s =>
      constructor
      · rintro ⟨⟩
        rfl
      · rintro ⟨⟩
        rfl
  · rw [bind_of_error hpeek] at hread
    rw [hread, hpeek]
    exact ⟨nofun, nofun⟩
  · rw [bind_of_ok hpeek] at hread
    rw [hread, hpeek]
    exact ⟨nofun, nofun⟩

theorem form?_eq_none : form? r = .ok none s ↔ peek r = .ok none s := by
  rw [form?_eq, atEnd_eq]
  cases peek r with
  | error e s' => exact ⟨nofun, nofun⟩
  | ok item? s' =>
    cases item? with
    | none =>
      constructor
      · rintro ⟨⟩
        rfl
      · rintro ⟨⟩
        rfl
    | some item =>
      dsimp only [Option.isNone]
      cases form s' <;> exact ⟨nofun, nofun⟩

theorem ofString?_eq_ok_iff_gives {t : Term} :
    Term.ofString? source = .ok t ↔ ∃ span, (ofString source).Gives [.expr t span] none := by
  rw [Term.ofString?, whole_eq_ok]
  have hstart := stands_start source
  constructor
  · rintro ⟨r, s, hterm, hpeek⟩
    obtain ⟨span, hform⟩ := (hstart.form_expr_iff t r).mpr hterm
    exact ⟨span, .more ((hstart.form?_eq_some _).mpr hform) (.done (form?_eq_none.mpr hpeek))⟩
  · rintro ⟨span, hgives⟩
    cases hgives with
    | more hform hrest =>
      cases hrest with
      | done hend =>
        have hread := (hstart.form?_eq_some _).mp hform
        exact ⟨_, _, (hstart.form_expr_iff t _).mp ⟨span, hread⟩, form?_eq_none.mp hend⟩

end Reader

end SystemT
