import SystemT.Proofs.Reader.Cost
import SystemT.Proofs.Session.Sources
import SystemT.Proofs.Ty.Canonical

/-!
# Checking never meets a bound

A session may be put any number of questions, each of which is a source text: to run it for the
types that it reports, or to tell the type of an expression (`Session.answerAll`). If all the texts
together are shorter than what a counter of fresh variables can count, no answer is a fault
(`Session.answerAll_isOk`).

Types are found before anything is expanded, and a term that has a type is closed, whatever indices
are written in other texts. The bounds that are left are on what has to be counted, and a text is
longer than that: it has a token for each fresh variable that a form needs, and a token for each
binder that a definition nests. A session keeps count of the binders alone (`Session.Bounded`).
Checking an expression starts counting variables anew, since a session declares no types with
generated variables.
-/

namespace SystemT

/-- A question that is put to a session. -/
inductive Query where
  /-- Run the text and report types. -/
  | check (source : String)
  /-- Tell the type of the expression that is the text. -/
  | typeOf (source : String)
deriving DecidableEq, Repr

/-- The text of a question. -/
def Query.source : Query → String
  | check source => source
  | typeOf source => source

/-- What a session says to a question. -/
inductive Reply where
  | transcript (t : Transcript)
  | type (A : Ty)
  | refused (e : SessionError)
deriving Repr

namespace Session

/-- Answer a question. -/
def answer (s : Session) (fuel : Nat) : Query → Except Fault (Reply × Session)
  | .check source => (s.run fuel .check source).map (Prod.map .transcript id)
  | .typeOf source =>
    match s.typeOf source with
    | .ok A => .ok (.type A, s)
    | .error (.error e) => .ok (.refused e, s)
    | .error (.fault f) => .error f

/-- Answer questions one after the other. -/
def answerAll (s : Session) (fuel : Nat) : List Query → Except Fault (List Reply × Session)
  | [] => .ok ([], s)
  | q :: queries => do
    let (reply, s) ← s.answer fuel q
    let (replies, s) ← s.answerAll fuel queries
    pure (reply :: replies, s)

variable {s : Session} {n m : Nat}

/-! ## What a session has to count -/

/-- What holds of a session that texts of `n` bytes altogether may have led to. -/
structure Bounded (n : Nat) (s : Session) : Prop where
  sound : ∃ accepted, Sound accepted s
  written : ∀ x A, s.ctx.lookup? x = some A → A.Written
  nesting : ∀ x d, s.defs.get? x = some d → d.nesting ≤ n

theorem bounded_start : Bounded 0 {} where
  sound := ⟨[], sound_start⟩
  written := by
    intro x A hx
    have hnone : Context.empty.lookup? x = none := Context.lookup?_empty x
    exact nomatch hnone.symm.trans hx
  nesting := by
    intro x d hx
    have hnone : (∅ : ConstSubst).get? x = none := ConstSubst.get?_empty x
    exact nomatch hnone.symm.trans hx

theorem Bounded.mono (h : Bounded n s) (hnm : n ≤ m) : Bounded m s where
  sound := h.sound
  written := h.written
  nesting := fun x d hx => Nat.le_trans (h.nesting x d hx) hnm

/-- No variable of the context is a generated one. -/
theorem Bounded.not_mem_vars (h : Bounded n s) (k : Nat) : .fresh k ∉ s.ctx.vars := by
  obtain ⟨accepted, hsound⟩ := h.sound
  intro hk
  rw [Context.mem_vars, Context.mem_declaredVars, hsound.bound] at hk
  rcases hk with ⟨c, A, hc, hA⟩ | ⟨A, hA, -⟩
  · rw [h.written c A hc k] at hA
    cases hA
  · cases hA

/-- A term that does not need too many variables has a type, or a type error. -/
theorem Bounded.infer_cases (h : Bounded n s) {t : Term} (ht : t.freshDemand < counterLimit)
    (span : Span) : (∃ A, s.infer t span = .ok A) ∨ ∃ e, s.infer t span = .error (.error e) := by
  cases hA : s.infer t span with
  | ok A => exact .inl ⟨A, rfl⟩
  | error e =>
    rcases infer_eq_error hA with ⟨e', rfl, -⟩ | ⟨-, hdemand | ⟨k, hk, -⟩⟩
    · exact .inr ⟨_, rfl⟩
    · exact absurd ht (Nat.not_lt.mpr hdemand)
    · exact absurd hk (h.not_mem_vars k)

/-- Lifting the definitions counts their binders, which are few enough. -/
theorem Bounded.expand_eq (h : Bounded n s) (hn : n < indexLimit) (t : Term) :
    s.expand t = .ok (t.substConsts s.defs) := by
  obtain ⟨accepted, hsound⟩ := h.sound
  rcases hsound.expand_cases t with ht | ⟨-, x, d, hx, hd⟩
  · exact ht
  · have hle := h.nesting x d hx
    omega

/-! ## Forms, texts and questions -/

/-- Checking a form leads to an error or to a session that has more to count by what the form
needs: a definition adds its binders to those of the earlier definitions that it uses. -/
theorem Bounded.process (h : Bounded n s) (hn : n < indexLimit) {form : Form}
    (hwritten : form.Written) (hdemand : form.freshDemand < counterLimit) (fuel : Nat) :
    (∃ e, s.process fuel .check form = .error (.error e)) ∨
      ∃ outcome next, s.process fuel .check form = .ok (outcome, next) ∧
        Bounded (n + form.freshDemand) next := by
  obtain ⟨accepted, hsound⟩ := h.sound
  have hmore : n ≤ n + form.freshDemand := Nat.le_add_right _ _
  cases form with
  | define x t span =>
    rcases h.infer_cases hdemand span with ⟨A, hA⟩ | ⟨e, he⟩
    · have hform : s.process fuel .check (.define x t span) = .ok (.defined x A,
          ⟨s.ctx.declare x A, s.defs.insert x (t.substConsts s.defs)⟩) := by
        rw [process_define_eq, hA, h.expand_eq hn]
        rfl
      obtain ⟨r, -, rfl⟩ := infer_eq_ok hA
      have hnesting : (t.substConsts s.defs).nesting ≤ n + t.freshDemand := by
        have hle := Term.nesting_substConsts_le hsound.closed h.nesting t
        have hdemand := t.nesting_le_freshDemand
        omega
      refine .inr ⟨_, _, hform, ⟨_, hsound.process hform⟩, ?_, ?_⟩
      · exact Context.forall_lookup?_declare r.ty.written_withDisplayNames h.written
      · exact ConstSubst.forall_get?_insert hnesting (h.mono hmore).nesting
    · refine .inl ⟨e, ?_⟩
      rw [process_define_eq, he]
      rfl
  | declare x A span =>
    have hform : s.process fuel .check (.declare x A span) = .ok (.declared x A,
        ⟨s.ctx.declare x A, s.defs.erase x⟩) := rfl
    refine .inr ⟨_, _, hform, ⟨_, hsound.process hform⟩, ?_, ?_⟩
    · exact Context.forall_lookup?_declare hwritten h.written
    · exact ConstSubst.forall_get?_erase (h.mono hmore).nesting
  | expr t span =>
    rcases h.infer_cases hdemand span with ⟨A, hA⟩ | ⟨e, he⟩
    · refine .inr ⟨.typed t A, s, ?_, h.mono hmore⟩
      rw [process_check_eq, hA]
      rfl
    · refine .inl ⟨e, ?_⟩
      rw [process_check_eq, he]
      rfl

/-- Checking forms comes to an end with a transcript. -/
theorem Bounded.runForms (h : Bounded n s) {forms : List Form}
    (hwritten : ∀ form ∈ forms, form.Written)
    (hdemand : n + (forms.map Form.freshDemand).sum < counterLimit) (fuel : Nat)
    (error : Option ReadError) :
    ∃ t next, s.runForms fuel .check error forms = .ok (t, next) ∧
      Bounded (n + (forms.map Form.freshDemand).sum) next := by
  induction forms generalizing s n with
  | nil => exact ⟨_, s, rfl, h⟩
  | cons form forms ih =>
    rw [List.map_cons, List.sum_cons, ← Nat.add_assoc] at hdemand ⊢
    obtain ⟨hform, hforms⟩ := List.forall_mem_cons.mp hwritten
    have hlimit : counterLimit ≤ indexLimit := by decide
    rw [Session.runForms]
    rcases h.process (by omega) hform (by omega) fuel with ⟨e, he⟩ | ⟨outcome, next, hok, hnext⟩
    · rw [he]
      exact ⟨_, s, rfl, h.mono (by omega)⟩
    · obtain ⟨t, last, hrun, hlast⟩ := ih hnext hforms hdemand
      rw [hok]
      dsimp only
      rw [hrun]
      exact ⟨_, last, rfl, hlast⟩

/-- Checking a text comes to an end with a transcript. -/
theorem Bounded.run (h : Bounded n s) {source : String}
    (hsize : n + source.utf8ByteSize < counterLimit) (fuel : Nat) :
    ∃ t next, s.run fuel .check source = .ok (t, next) ∧
      Bounded (n + source.utf8ByteSize) next := by
  obtain ⟨forms, error, hgives, -⟩ := Reader.exists_gives (.ofString source)
  have hdemand := Nat.le_trans hgives.freshDemand_le (Reader.left_ofString_le source)
  obtain ⟨t, next, hrun, hnext⟩ := h.runForms hgives.written (by omega) fuel error
  exact ⟨t, next, (run_eq hgives s).trans hrun, hnext.mono (by omega)⟩

/-- An expression has a type, or there is an error to report. -/
theorem Bounded.typeOf_cases (h : Bounded n s) {source : String}
    (hsize : source.utf8ByteSize < counterLimit) :
    (∃ A, s.typeOf source = .ok A) ∨ ∃ e, s.typeOf source = .error (.error e) := by
  rw [typeOf]
  cases ht : Term.ofString? source with
  | error e => exact .inr ⟨.read e, rfl⟩
  | ok t =>
    have hdemand := Term.freshDemand_lt_of_ofString? ht
    exact h.infer_cases (by omega) _

/-- A question is answered. -/
theorem Bounded.answer (h : Bounded n s) {q : Query}
    (hsize : n + q.source.utf8ByteSize < counterLimit) (fuel : Nat) :
    ∃ reply next, s.answer fuel q = .ok (reply, next) ∧
      Bounded (n + q.source.utf8ByteSize) next := by
  cases q with
  | check source =>
    have hsize : n + source.utf8ByteSize < counterLimit := hsize
    obtain ⟨t, next, hrun, hnext⟩ := h.run hsize fuel
    refine ⟨.transcript t, next, ?_, hnext⟩
    rw [Session.answer, hrun]
    rfl
  | typeOf source =>
    have hkept := h.mono (Nat.le_add_right n source.utf8ByteSize)
    have hlimit : source.utf8ByteSize < counterLimit :=
      Nat.lt_of_le_of_lt (Nat.le_add_left _ n) hsize
    rw [Session.answer]
    rcases h.typeOf_cases hlimit with ⟨A, hA⟩ | ⟨e, he⟩
    · rw [hA]
      exact ⟨_, s, rfl, hkept⟩
    · rw [he]
      exact ⟨_, s, rfl, hkept⟩

theorem Bounded.answerAll (h : Bounded n s) {queries : List Query}
    (hsize : n + (queries.map (·.source.utf8ByteSize)).sum < counterLimit) (fuel : Nat) :
    ∃ replies next, s.answerAll fuel queries = .ok (replies, next) := by
  induction queries generalizing s n with
  | nil => exact ⟨[], s, rfl⟩
  | cons q queries ih =>
    rw [List.map_cons, List.sum_cons, ← Nat.add_assoc] at hsize
    obtain ⟨reply, next, hreply, hnext⟩ := h.answer (q := q) (by omega) fuel
    obtain ⟨replies, last, hreplies⟩ := ih hnext hsize
    refine ⟨reply :: replies, last, ?_⟩
    rw [Session.answerAll, hreply]
    show (next.answerAll fuel queries >>= fun r => _) = _
    rw [hreplies]
    rfl

/-- **Checking never meets a bound.** Whatever questions are put to a session, one after the other
and in any order, each of them is answered, as long as the texts are shorter altogether than the
counter of fresh variables reaches. -/
theorem answerAll_isOk (queries : List Query) (fuel : Nat)
    (hsize : (queries.map (·.source.utf8ByteSize)).sum < counterLimit) :
    ∃ replies s, ({} : Session).answerAll fuel queries = .ok (replies, s) :=
  bounded_start.answerAll (by omega) fuel

/-- Expressions whose index is the largest that can be written are asked for before and after a
definition, and one such index stands in a definition. -/
theorem answerAll_isOk_largest_index :
    ∃ queries : List Query, queries = [.typeOf "18446744073709551615",
        .check "(def k (lam (lam 1))) (def j (lam (app k 18446744073709551615)))",
        .typeOf "(lam (app k 18446744073709551615))", .check "(axiom c A) (def j (app k c)) j"] ∧
      (queries.map (·.source.utf8ByteSize)).sum < counterLimit ∧
      ∃ replies s, ({} : Session).answerAll 0 queries = .ok (replies, s) :=
  ⟨_, rfl, by decide, answerAll_isOk _ 0 (by decide)⟩

end Session

end SystemT
