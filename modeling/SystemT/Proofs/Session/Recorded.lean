import SystemT.Proofs.Evaluation.Preservation
import SystemT.Proofs.Evaluation.Renaming
import SystemT.Proofs.Session.Scoping
import SystemT.Proofs.Ty.Display

/-!
# Recorded types

The type that a session records for a definition stays a type of what the definition means. To say
so, the definition is unfolded to the axioms that it comes down to, each of them under the tag of
its own declaration (`Session.unfolded`), and then it has the recorded type where every axiom is
used at the type that it was accepted with (`Session.Recorded`). Every form keeps this
(`Session.Recorded.process`).

A session stores the definition with names for tags, and a name may have been declared again since
then, at another type. So the stored definition need not type check any more, and neither need a
value that was found with its help (`Session.Reached.recorded_type_redeclared`). As long as the
axioms that are left in the definition or in the value still have the types that they were accepted
with, both type check, and with the recorded type (`Session.Reached.recorded_type`).
-/

namespace SystemT

namespace Session

open Declaration

/-! ## Axioms by their tags -/

/-- The name and the type of the axiom with the tag `tag`. -/
def assumed? : List Form → Ident → Option (Ident × Ty)
  | [], _ => none
  | .declare x A _ :: forms, tag =>
    if nextTag (declarations forms) = tag then some (x, A) else assumed? forms tag
  | .define _ _ _ :: forms, tag => assumed? forms tag
  | .expr _ _ :: forms, tag => assumed? forms tag

/-- A tag may be used at the type that its axiom was accepted with. Generated variables in that type
get other names when a type is shown, so that nothing is said about an axiom that has some. -/
def Assumes (accepted : List Form) (tag : Ident) (B : Ty) : Prop :=
  ∃ x A, assumed? accepted tag = some (x, A) ∧ (A.Written → B = A)

variable {accepted : List Form} {s s' : Session} {tag x : Ident} {A B : Ty}

/-- Tags count the declarations before. -/
theorem lt_of_assumed? (h : assumed? accepted tag = some (x, A)) :
    ∃ k, tag = .fresh k ∧ k < (declarations accepted).length := by
  induction accepted with
  | nil => cases h
  | cons form forms ih =>
    cases form with
    | define y t span =>
      obtain ⟨k, rfl, hk⟩ := ih h
      exact ⟨k, rfl, Nat.lt_succ_of_lt hk⟩
    | declare y B span =>
      rw [assumed?] at h
      by_cases htag : nextTag (declarations forms) = tag
      · exact ⟨_, htag.symm, Nat.lt_succ_self _⟩
      · rw [if_neg htag] at h
        obtain ⟨k, rfl, hk⟩ := ih h
        exact ⟨k, rfl, Nat.lt_succ_of_lt hk⟩
    | expr t span => exact ih h

theorem nextTag_ne_of_assumed? (h : assumed? accepted tag = some (x, A)) :
    nextTag (declarations accepted) ≠ tag := by
  obtain ⟨k, rfl, hk⟩ := lt_of_assumed? h
  rintro ⟨⟩
  exact Nat.lt_irrefl _ hk

/-- Later forms do not change what a tag stands for. -/
theorem assumed?_cons (h : assumed? accepted tag = some (x, A)) (form : Form) :
    assumed? (form :: accepted) tag = some (x, A) := by
  cases form with
  | define | expr => exact h
  | declare y B span =>
    rw [assumed?, if_neg (nextTag_ne_of_assumed? h)]
    exact h

/-- A tag is turned into the name of its axiom. -/
theorem image_untagging (h : assumed? accepted tag = some (x, A)) :
    (untagging (declarations accepted)).image tag = .fvar x := by
  induction accepted with
  | nil => cases h
  | cons form forms ih =>
    cases form with
    | define y t span =>
      have h : assumed? forms tag = some (x, A) := h
      rw [declarations, untagging, ConstSubst.image_insert, if_neg (nextTag_ne_of_assumed? h)]
      exact ih h
    | declare y B span =>
      rw [assumed?] at h
      rw [declarations, untagging, ConstSubst.image_insert]
      by_cases htag : nextTag (declarations forms) = tag
      · rw [if_pos htag] at h
        cases h
        exact if_pos htag
      · rw [if_neg htag] at h
        rw [if_neg htag]
        exact ih h
    | expr t span => exact ih h

theorem Assumes.cons (h : Assumes accepted tag B) (form : Form) :
    Assumes (form :: accepted) tag B := by
  obtain ⟨x, A, htag, hB⟩ := h
  exact ⟨x, A, assumed?_cons htag form, hB⟩

/-- Generated variables may be substituted. -/
theorem Assumes.apply (h : Assumes accepted tag B) {σ : Subst}
    (hσ : ∀ x u, σ.get? x = some u → ∃ n, x = .fresh n) : Assumes accepted tag (σ.apply B) := by
  obtain ⟨x, A, htag, hB⟩ := h
  refine ⟨x, A, htag, fun hA => ?_⟩
  rw [hB hA]
  refine Subst.apply_of_unbound fun y hy => ?_
  cases hu : σ.get? y with
  | none => rfl
  | some u =>
    obtain ⟨n, rfl⟩ := hσ y u hu
    rw [hA n] at hy
    cases hy

/-! ## Unfolding -/

/-- The term with all definitions inlined as they were written. Axioms are left, under the tags of
the declarations that are meant. -/
def unfolded (accepted : List Form) (t : Term) : Term :=
  inline (declarations accepted) (t.substConsts (tagging (declarations accepted)))

/-- What a session records is true of what is meant: a declared name has a type, and this is a type
of what the name unfolds to. -/
structure Recorded (accepted : List Form) (s : Session) : Prop where
  declared : ∀ x, Declared (declarations accepted) x → ∃ A, s.ctx.lookup? x = some A
  typed : ∀ x A, s.ctx.lookup? x = some A →
    Typing (Assumes accepted) [] (unfolded accepted (.fvar x)) A

theorem recorded_start : Recorded [] {} where
  declared := by
    rintro x ⟨d, hd, -⟩
    cases hd
  typed := by
    intro x A hx
    have hnone : Context.empty.lookup? x = none := Context.lookup?_empty x
    exact nomatch hnone.symm.trans hx

/-- A term that type checks has its type when it is unfolded, too. -/
theorem Recorded.typed_unfolded (h : Recorded accepted s) (hscoping : Scoping accepted s)
    (hs : Sound accepted s) {t : Term} {r : Inferred} (ht : typeCheck t s.ctx = .ok r) :
    Typing (Assumes accepted) [] (unfolded accepted t) r.ty := by
  have htyped := typing_of_typeCheck hs.bound ht
  rw [unfolded, hscoping.ordered.inline_tagging]
  -- constants unfold to terms of the types that are recorded for them
  have hconst : ∀ x B, s.ctx.lookup? x = some B → Typing (Assumes accepted) []
      (((tagging (declarations accepted)).compose (inlining (declarations accepted))).image x)
      B := by
    intro x B hx
    have hx := h.typed x B hx
    rw [unfolded, hscoping.ordered.inline_tagging] at hx
    exact hx
  refine htyped.substConsts hscoping.ordered.closed_compose ?_ ?_
  · intro x d B hd hx
    have hx := hconst x B hx
    rw [ConstSubst.image, hd] at hx
    exact hx
  · intro x B hd hx
    have hx := hconst x B hx
    rw [ConstSubst.image, hd] at hx
    cases hx with
    | fvar hx => exact hx

/-- So it has with display names. -/
theorem Recorded.typed_withDisplayNames (h : Recorded accepted s) (hscoping : Scoping accepted s)
    (hs : Sound accepted s) {t : Term} {r : Inferred} (ht : typeCheck t s.ctx = .ok r) :
    Typing (Assumes accepted) [] (unfolded accepted t) r.ty.withDisplayNames := by
  obtain ⟨σ, hdisplay, hσ⟩ := r.ty.withDisplayNames_eq_apply
  rw [hdisplay]
  exact (h.typed_unfolded hscoping hs ht).apply σ fun y B hy => hy.apply hσ

/-- One more declaration keeps the types of the other names. -/
theorem Recorded.declare (h : Recorded accepted s) (hscoping : Scoping accepted s) {form : Form}
    {d : Declaration} (hform : declarations (form :: accepted) = d :: declarations accepted)
    (hA : Typing (Assumes (form :: accepted)) [] (unfolded (form :: accepted) (.fvar d.name)) A)
    (defs : ConstSubst) : Recorded (form :: accepted) ⟨s.ctx.declare d.name A, defs⟩ := by
  constructor
  · intro y hy
    rw [Context.lookup?_declare]
    by_cases hxy : d.name = y
    · rw [if_pos hxy]
      exact ⟨A, rfl⟩
    · rw [if_neg hxy]
      rw [hform] at hy
      exact h.declared y (hy.of_cons hxy)
  · intro y B hy
    rw [Context.lookup?_declare] at hy
    by_cases hxy : d.name = y
    · rw [if_pos hxy] at hy
      cases hy
      rw [← hxy]
      exact hA
    · rw [if_neg hxy] at hy
      have hkept : unfolded (form :: accepted) (.fvar y) = unfolded accepted (.fvar y) := by
        rw [unfolded, hform, inline_tagging_of_ne hxy (hscoping.declared y B hy), unfolded]
      rw [hkept]
      exact (h.typed y B hy).of_consts fun z C _ hz => hz.cons form

/-- **Every form keeps recorded types true.** -/
theorem Recorded.process (h : Recorded accepted s) (hscoping : Scoping accepted s)
    (hs : Sound accepted s) {fuel : Nat} {mode : Mode} {form : Form} {outcome : Outcome}
    (hform : s.process fuel mode form = .ok (outcome, s')) : Recorded (form :: accepted) s' := by
  cases form with
  | define x t span =>
    obtain ⟨r, hr, rfl⟩ := hs.process_define hform
    refine h.declare hscoping (d := ⟨x, some t⟩) rfl ?_ _
    have hbody : unfolded (.define x t span :: accepted) (.fvar x) = unfolded accepted t :=
      inline_tagging_define x t (declarations accepted)
    rw [hbody]
    exact (h.typed_withDisplayNames hscoping hs hr).of_consts fun z C _ hz => hz.cons _
  | declare x A span =>
    cases hform
    refine h.declare hscoping (d := ⟨x, none⟩) rfl ?_ _
    have htag : unfolded (.declare x A span :: accepted) (.fvar x) =
        .fvar (nextTag (declarations accepted)) :=
      inline_tagging_assume x (declarations accepted)
    rw [htag]
    exact .fvar ⟨x, A, if_pos rfl, fun _ => rfl⟩
  | expr t span =>
    obtain rfl := process_expr_ok hform
    exact ⟨h.declared, fun y B hy => (h.typed y B hy).of_consts fun z C _ hz => hz.cons _⟩

theorem Reached.recorded (h : Reached accepted s) : Recorded accepted s := by
  induction h with
  | start => exact recorded_start
  | accept h hform ih => exact ih.process h.scoping h.sound hform
  | refuse _ _ ih => exact ih

/-! ## Names for tags -/

theorem renames_untagging (ds : List Declaration) : ∃ f, (untagging ds).Renames f := by
  induction ds with
  | nil => exact ⟨id, ConstSubst.image_empty⟩
  | cons d ds ih =>
    obtain ⟨f, hf⟩ := ih
    refine ⟨fun x => if nextTag ds = x then d.name else f x, fun x => ?_⟩
    rw [untagging, ConstSubst.image_insert]
    by_cases htag : nextTag ds = x
    · rw [if_pos htag]
      exact congrArg Term.fvar (if_pos htag).symm
    · rw [if_neg htag, hf x]
      exact congrArg Term.fvar (if_neg htag).symm

/-- In the context, each axiom that is left in the unfolded term is declared at the type that it was
accepted with, and this has written variables only. -/
def Current (accepted : List Form) (Γ : Context) (v : Term) : Prop :=
  ∀ tag, v.HasConst tag →
    ∃ x A, assumed? accepted tag = some (x, A) ∧ A.Written ∧ Γ.lookup? x = some A

/-- With names for tags, an unfolded term keeps its type where its axioms are still current. -/
theorem Current.types {Γ : Context} {v : Term} (h : Current accepted Γ v) (hΓ : Γ.bound = [])
    (hv : Typing (Assumes accepted) [] v A) :
    Γ.Types (v.substConsts (untagging (declarations accepted))) A := by
  -- the tags that occur are used at the type that is declared for their name
  have hcurrent : Typing (fun tag B => ∃ x, assumed? accepted tag = some (x, B) ∧
      Γ.lookup? x = some B) [] v A := by
    refine hv.of_consts fun tag B htag hB => ?_
    obtain ⟨x, C, hx, hwritten, hlookup⟩ := h tag htag
    obtain ⟨y, D, hy, hD⟩ := hB
    obtain ⟨rfl, rfl⟩ : x = y ∧ C = D := by
      rw [hx] at hy
      cases hy
      exact ⟨rfl, rfl⟩
    rw [hD hwritten]
    exact ⟨x, hx, hlookup⟩
  rw [Context.Types, hΓ]
  refine hcurrent.substConsts (closed_untagging _) ?_ ?_
  · rintro tag d B hd ⟨x, hx, hlookup⟩
    have himage := image_untagging hx
    rw [ConstSubst.image, hd] at himage
    obtain rfl : d = .fvar x := himage
    exact .fvar hlookup
  · rintro tag B hd ⟨x, hx, hlookup⟩
    have himage := image_untagging hx
    rw [ConstSubst.image, hd] at himage
    obtain rfl : tag = x := Term.fvar.inj himage
    exact hlookup

/-! ## Values -/

/-- What an evaluated expression was evaluated to, and the type it was shown with. -/
theorem Sound.process_evaluated (h : Sound accepted s) {fuel : Nat} {t v : Term} {span : Span}
    (hform : s.process fuel .eval (.expr t span) = .ok (.evaluated v A, s')) :
    ∃ r, typeCheck t s.ctx = .ok r ∧ A = r.ty.withDisplayNames ∧
      Evaluation.Yields (.term (t.substConsts s.defs)) (.ok v) := by
  obtain ⟨answer, hanswer, -, hall⟩ := h.process_eval t span
  rcases hall fuel with heq | hout
  · rw [hform] at heq
    subst heq
    cases hanswer with
    | value hr hv => exact ⟨_, hr, rfl, hv⟩
  · rw [hform] at hout
    cases hout

open Evaluation in
/-- The unfolded expression has the same value, but for the tags. -/
theorem Recorded.yields_unfolded (h : Recorded accepted s) (hscoping : Scoping accepted s)
    (hs : Sound accepted s) {t v : Term} {r : Inferred} (ht : typeCheck t s.ctx = .ok r)
    (hv : Yields (.term (t.substConsts s.defs)) (.ok v)) :
    ∃ w, Yields (.term (unfolded accepted t)) (.ok w) ∧
      w.substConsts (untagging (declarations accepted)) = v := by
  have htyped := h.typed_unfolded hscoping hs ht
  obtain ⟨f, hf⟩ := renames_untagging (declarations accepted)
  have hexpands : (unfolded accepted t).substConsts (untagging (declarations accepted)) =
      t.substConsts s.defs := by
    rw [hscoping.defs]
    exact (hscoping.ordered.expands (hscoping.inScope hs ht)).untagged
  -- the unfolded expression yields something, and with names for tags that can only be `v`
  have hstuck : ∀ x B, Assumes accepted x B → ∃ C, Assumes accepted x C := fun _ B hx => ⟨B, hx⟩
  obtain ⟨result, hresult, -⟩ := computes_of_typing_nil hstuck htyped
  have hrenamed := hresult.substConsts hf
  rw [Job.substConsts, hexpands] at hrenamed
  have hvalue := hrenamed.unique hv (hs.typed ht).closedAt
  cases result with
  | error e => cases hvalue
  | ok w => exact ⟨w, hresult, Except.ok.inj hvalue⟩

end Session

/-- A type is found for the term, and `A` is an instance of it that leaves the declarations
alone. -/
def Context.Finds (Γ : Context) (t : Term) (A : Ty) : Prop :=
  ∃ r, typeCheck t Γ = .ok r ∧ ∃ ρ : Subst, ρ.Fixes Γ.declaredVars ∧ ρ.apply r.ty = A

namespace Session

open Declaration

/-! ## Stale definitions -/

/-- A definition of `x` is stored that the type recorded for it is not found for any more. -/
def Stale (s : Session) (x : Ident) : Prop :=
  ∃ d A, s.defs.get? x = some d ∧ s.ctx.lookup? x = some A ∧ ¬ s.ctx.Finds d A

theorem stale_of_typeCheck {s : Session} {x : Ident} {d : Term} {A : Ty}
    (hd : s.defs.get? x = some d) (hA : s.ctx.lookup? x = some A)
    (hcheck : (typeCheck d s.ctx).isOk = false) : s.Stale x := by
  refine ⟨d, A, hd, hA, ?_⟩
  rintro ⟨r, hr, -⟩
  rw [hr] at hcheck
  cases hcheck

/-- A definition that has a type and can be expanded is accepted. -/
theorem Reached.define {accepted : List Form} {s : Session} (h : Reached accepted s) (x : Ident)
    {t d : Term} {A : Ty} {span : Span} (ht : s.infer t span = .ok A ∧ s.expand t = .ok d) :
    Reached (.define x t span :: accepted) ⟨s.ctx.declare x A, s.defs.insert x d⟩ := by
  have hform : s.process 0 .check (.define x t span) =
      .ok (.defined x A, ⟨s.ctx.declare x A, s.defs.insert x d⟩) := by
    rw [process_define_eq, ht.1, ht.2]
    rfl
  exact h.accept hform

/-- A declaration is accepted whatever its type. -/
theorem Reached.declare {accepted : List Form} {s : Session} (h : Reached accepted s) (x : Ident)
    (A : Ty) (span : Span) :
    Reached (.declare x A span :: accepted) ⟨s.ctx.declare x A, s.defs.erase x⟩ :=
  h.accept (show s.process 0 .check (.declare x A span) = .ok (.declared x A, _) from rfl)

/-- The session after `c : nat` is declared, and `d` is defined as `λ succ c`. -/
theorem reached_succ {c : Ident} (hc : c = .named "c") (d : Ident) :
    Reached [.define d (.lam (.succ (.fvar c))) ⟨0, 0⟩, .declare c .nat ⟨0, 0⟩]
      ⟨(Context.empty.declare c .nat).declare d (.arrow (.var (.named "A")) .nat),
        ((∅ : ConstSubst).erase c).insert d (.lam (.succ (.fvar c)))⟩ := by
  let s : Session := ⟨Context.empty.declare c .nat, (∅ : ConstSubst).erase c⟩
  have hr : typeCheck (.lam (.succ (.fvar c))) s.ctx = .ok ⟨∅, .arrow (.var (.fresh 0)) .nat⟩ := by
    subst hc
    rw [typeCheck_eq]
    cbv
  have hname : (Ty.arrow (.var (.fresh 0)) .nat).withDisplayNames =
      .arrow (.var (.named "A")) .nat := by decide +kernel
  have hexpand : s.expand (.lam (.succ (.fvar c))) = .ok (.lam (.succ (.fvar c))) := by
    subst hc
    rfl
  have hstart : Reached _ s := Reached.start.declare c .nat ⟨0, 0⟩
  exact hstart.define d ⟨(infer_of_typeCheck hr).trans (congrArg Except.ok hname), hexpand⟩

/-- Generated variables of two axioms are shown alike. So one axiom can be applied to the other by
way of definitions, which cannot be done once these are expanded. -/
theorem stale_generated : ∃ accepted s x, Reached accepted s ∧
    (declarations accepted).Pairwise (·.name ≠ ·.name) ∧ s.Stale x := by
  generalize hc : Ident.named "c" = c
  generalize hf : Ident.named "f" = f
  generalize hg : Ident.named "g" = g
  generalize hh : Ident.named "h" = h
  generalize hk : Ident.named "k" = k
  -- the session after the axioms, and after each of the three definitions
  let s₁ : Session := ⟨(Context.empty.declare c (.var (.fresh 0))).declare f
    (.arrow (.var (.fresh 1)) .nat), ((∅ : ConstSubst).erase c).erase f⟩
  let s₂ : Session := ⟨s₁.ctx.declare g (.var (.named "A")), s₁.defs.insert g (.fvar c)⟩
  let s₃ : Session := ⟨s₂.ctx.declare h (.arrow (.var (.named "A")) .nat),
    s₂.defs.insert h (.fvar f)⟩
  let s₄ : Session := ⟨s₃.ctx.declare k .nat, s₃.defs.insert k (.app (.fvar f) (.fvar c))⟩
  have hcheck₁ : s₁.infer (.fvar c) ⟨0, 0⟩ = .ok (.var (.named "A")) ∧
      s₁.expand (.fvar c) = .ok (.fvar c) := by
    subst hc hf hg hh hk
    rw [infer, typeCheck_eq]
    constructor <;> rfl
  have hcheck₂ : s₂.infer (.fvar f) ⟨0, 0⟩ = .ok (.arrow (.var (.named "A")) .nat) ∧
      s₂.expand (.fvar f) = .ok (.fvar f) := by
    subst hc hf hg hh hk
    rw [infer, typeCheck_eq]
    constructor <;> rfl
  have hcheck₃ : s₃.infer (.app (.fvar h) (.fvar g)) ⟨0, 0⟩ = .ok .nat ∧
      s₃.expand (.app (.fvar h) (.fvar g)) = .ok (.app (.fvar f) (.fvar c)) := by
    have hr : typeCheck (.app (.fvar h) (.fvar g)) s₃.ctx =
        .ok ⟨.singleton (.fresh 2) .nat, .nat⟩ := by
      subst hc hf hg hh hk
      rw [typeCheck_eq]
      cbv
    refine ⟨infer_of_typeCheck hr, ?_⟩
    subst hc hf hg hh hk
    rfl
  have hreached : Reached _ s₁ := (Reached.start.declare c _ ⟨0, 0⟩).declare f _ ⟨0, 0⟩
  have hreached : Reached _ s₄ := ((hreached.define g hcheck₁).define h hcheck₂).define k hcheck₃
  have hstale : s₄.Stale k := by
    have hc' : s₄.ctx.lookup? c = some (.var (.fresh 0)) := by
      subst hc hf hg hh hk
      rfl
    have hf' : s₄.ctx.lookup? f = some (.arrow (.var (.fresh 1)) .nat) := by
      subst hc hf hg hh hk
      rfl
    refine ⟨.app (.fvar f) (.fvar c), .nat, ?_, ?_, ?_⟩
    · subst hc hf hg hh hk
      rfl
    · subst hc hf hg hh hk
      rfl
    · rintro ⟨⟨_, B⟩, hr, -⟩
      cases typing_of_typeCheck rfl hr with
      | app hfn harg =>
        cases hfn with
        | fvar hfn =>
          cases harg with
          | fvar harg =>
            cases hf'.symm.trans hfn
            cases hc'.symm.trans harg
  have hnames : [k, h, g, f, c].Nodup := by
    subst hc hf hg hh hk
    decide
  exact ⟨_, s₄, k, hreached, List.pairwise_map.mp hnames, hstale⟩

/-- The variables that an axiom leaves are enough for three identities, but not for the six that a
pair of these is expanded to. -/
theorem stale_exhausted : ∃ accepted s x, Reached accepted s ∧
    Current accepted s.ctx (unfolded accepted (.fvar x)) ∧ s.Stale x := by
  generalize hz : Ident.named "z" = z
  generalize hi : Ident.named "i" = i
  generalize hp : Ident.named "p" = p
  generalize hids : Term.pair (.lam (.bvar 0)) (.pair (.lam (.bvar 0)) (.lam (.bvar 0))) = ids
  generalize hA : Ty.prod (.arrow (.var (.named "A")) (.var (.named "A")))
    (.prod (.arrow (.var (.named "B")) (.var (.named "B")))
      (.arrow (.var (.named "C")) (.var (.named "C")))) = A
  -- the session after the axiom, and after each of the two definitions
  let s₁ : Session := ⟨Context.empty.declare z (.var (.fresh 4294967289)),
    (∅ : ConstSubst).erase z⟩
  let s₂ : Session := ⟨s₁.ctx.declare i A, s₁.defs.insert i ids⟩
  let s₃ : Session := ⟨s₂.ctx.declare p (.prod A A), s₂.defs.insert p (.pair ids ids)⟩
  have hcheck₁ : s₁.infer ids ⟨0, 0⟩ = .ok A ∧ s₁.expand ids = .ok ids := by
    subst hz hi hp hids hA
    rw [infer, typeCheck_eq]
    constructor <;> rfl
  have hcheck₂ : s₂.infer (.pair (.fvar i) (.fvar i)) ⟨0, 0⟩ = .ok (.prod A A) ∧
      s₂.expand (.pair (.fvar i) (.fvar i)) = .ok (.pair ids ids) := by
    subst hz hi hp hids hA
    rw [infer, typeCheck_eq]
    constructor <;> rfl
  have hreached : Reached _ s₃ :=
    ((Reached.start.declare z _ ⟨0, 0⟩).define i hcheck₁).define p hcheck₂
  refine ⟨_, s₃, p, hreached, ?_, ?_⟩
  · -- no axiom is left
    have hunfolded : unfolded [.define p (.pair (.fvar i) (.fvar i)) ⟨0, 0⟩,
        .define i ids ⟨0, 0⟩, .declare z (.var (.fresh 4294967289)) ⟨0, 0⟩] (.fvar p) =
        .pair ids ids := by
      subst hz hi hp hids hA
      rfl
    rw [hunfolded]
    subst hids
    intro tag htag
    simp [Term.HasConst] at htag
  · have hd : s₃.defs.get? p = some (.pair ids ids) := by
      subst hz hi hp hids hA
      rfl
    have hlookup : s₃.ctx.lookup? p = some (.prod A A) := by
      subst hz hi hp hids hA
      rfl
    refine stale_of_typeCheck hd hlookup ?_
    subst hz hi hp hids hA
    rw [typeCheck_eq]
    rfl

/-! ## Checking again -/

open Evaluation in
/-- **Recorded types stay true.** In a session that any forms have led to, every stored definition
type checks, and the type recorded for it is an instance of the one that is found, if each axiom
that is left in it is still declared at the type that it was accepted with. The same holds of a
value and the type that it is shown with. What axioms are left is told from the unfolded definition,
and from the value of the unfolded expression. The one exception is that the variables may not
suffice to find the type again. -/
theorem Reached.recorded_type {accepted : List Form} {s : Session} (h : Reached accepted s) :
    (∀ x d, s.defs.get? x = some d → ∃ A, s.ctx.lookup? x = some A ∧
      Resolves (declarations accepted) (unfolded accepted (.fvar x)) d ∧
      (Current accepted s.ctx (unfolded accepted (.fvar x)) → s.ctx.Finds d A ∨
        (typeCheck d s.ctx = .error (.fault .counterOverflow) ∧ s.ctx.Exhausts d))) ∧
    ∀ fuel t span v A s', s.process fuel .eval (.expr t span) = .ok (.evaluated v A, s') →
      ∃ w, Yields (.term (unfolded accepted t)) (.ok w) ∧
        w.substConsts (untagging (declarations accepted)) = v ∧
        (Current accepted s.ctx w → s.ctx.Finds v A ∨
          (typeCheck v s.ctx = .error (.fault .counterOverflow) ∧ s.ctx.Exhausts v)) := by
  have hs := h.sound
  have hscoping := h.scoping
  have hrecorded := h.recorded
  constructor
  · intro x d hd
    have hdeclared : Declared (declarations accepted) x := by
      rw [hscoping.defs] at hd
      obtain ⟨later, body, earlier, hds, -, -⟩ := hscoping.ordered.expands_of_get? hd
      exact ⟨_, hds ▸ List.mem_append_right _ List.mem_cons_self, rfl⟩
    obtain ⟨A, hA⟩ := hrecorded.declared x hdeclared
    have hresolves : Resolves (declarations accepted) (unfolded accepted (.fvar x)) d := by
      have himage : (Term.fvar x).substConsts (meaning (declarations accepted)) = d := by
        rw [← hscoping.defs, Term.substConsts_fvar, hd]
        rfl
      rw [← himage]
      exact hscoping.ordered.expands hdeclared.inScope
    refine ⟨A, hA, hresolves, fun hcurrent => ?_⟩
    have htypes := hcurrent.types hs.bound (hrecorded.typed x A hA)
    rw [hresolves.untagged] at htypes
    exact typeCheck_of_types htypes
  · intro fuel t span v A s' hform
    obtain ⟨r, hr, rfl, hv⟩ := hs.process_evaluated hform
    obtain ⟨w, hw, rfl⟩ := hrecorded.yields_unfolded hscoping hs hr hv
    refine ⟨w, hw, rfl, fun hcurrent => ?_⟩
    -- evaluation keeps the type that the unfolded expression has
    have htyped := hw.typed (hrecorded.typed_withDisplayNames hscoping hs hr)
    exact typeCheck_of_types (hcurrent.types hs.bound htyped)

/-- `d` is defined as `λ succ c`, and then `c : nat` is declared anew as `c : bool`. The definition
is still stored with the type `A → nat`, and `d` still evaluates to it, but it does not type check.
Names that are not declared anew do not help where types have generated variables, nor do axioms
that are current where the variables run out. -/
theorem Reached.recorded_type_redeclared :
    (∃ c d, c = Ident.named "c" ∧ d = Ident.named "d" ∧ ∃ accepted s, Reached accepted s ∧
      accepted = [.declare c .bool ⟨0, 0⟩, .define d (.lam (.succ (.fvar c))) ⟨0, 0⟩,
        .declare c .nat ⟨0, 0⟩] ∧
      s.defs.get? d = some (.lam (.succ (.fvar c))) ∧
      s.ctx.lookup? d = some (.arrow (.var (.named "A")) .nat) ∧
      s.process 9 .eval (.expr (.fvar d) ⟨0, 0⟩) =
        .ok (.evaluated (.lam (.succ (.fvar c))) (.arrow (.var (.named "A")) .nat), s) ∧
      ∀ A, ¬ s.ctx.Finds (.lam (.succ (.fvar c))) A) ∧
    (∃ accepted s x, Reached accepted s ∧
      (declarations accepted).Pairwise (·.name ≠ ·.name) ∧ s.Stale x) ∧
    ∃ accepted s x, Reached accepted s ∧
      Current accepted s.ctx (unfolded accepted (.fvar x)) ∧ s.Stale x := by
  refine ⟨⟨_, _, rfl, rfl, ?_⟩, stale_generated, stale_exhausted⟩
  generalize hc : Ident.named "c" = c
  generalize hd : Ident.named "d" = d
  let s : Session := ⟨((Context.empty.declare c .nat).declare d
    (.arrow (.var (.named "A")) .nat)).declare c .bool,
    (((∅ : ConstSubst).erase c).insert d (.lam (.succ (.fvar c)))).erase c⟩
  have hreached : Reached _ s := (reached_succ hc.symm d).declare c .bool ⟨0, 0⟩
  have hinfer : s.infer (.fvar d) ⟨0, 0⟩ = .ok (.arrow (.var (.named "A")) .nat) := by
    subst hc hd
    rw [infer, typeCheck_eq]
    rfl
  have hexpand : s.expand (.fvar d) = .ok (.lam (.succ (.fvar c))) := by
    subst hc hd
    rfl
  have hlookup : s.ctx.lookup? c = some .bool := by
    subst hc hd
    rfl
  refine ⟨_, s, hreached, rfl, ?_, ?_, ?_, ?_⟩
  · subst hc hd
    rfl
  · subst hc hd
    rfl
  · rw [process_eval_eq, hinfer, hexpand]
    rfl
  · rintro A ⟨⟨_, B⟩, hr, -⟩
    cases typing_of_typeCheck rfl hr with
    | lam hbody =>
      cases hbody with
      | succ hbody =>
        cases hbody with
        | fvar hbody => cases hlookup.symm.trans hbody

/-- `c : nat` is declared anew as `c : bool`, and then as `c : nat` again. The definition of `d` has
the first declaration left in it, whose type is the present one. -/
theorem Reached.recorded_type_again :
    ∃ c d, c = Ident.named "c" ∧ d = Ident.named "d" ∧ ∃ accepted s, Reached accepted s ∧
      accepted = [.declare c .nat ⟨0, 0⟩, .declare c .bool ⟨0, 0⟩,
        .define d (.lam (.succ (.fvar c))) ⟨0, 0⟩, .declare c .nat ⟨0, 0⟩] ∧
      s.defs.get? d = some (.lam (.succ (.fvar c))) ∧
      unfolded accepted (.fvar d) = .lam (.succ (.fvar (.fresh 0))) ∧
      Current accepted s.ctx (unfolded accepted (.fvar d)) ∧
      s.process 9 .eval (.expr (.fvar d) ⟨0, 0⟩) =
        .ok (.evaluated (.lam (.succ (.fvar c))) (.arrow (.var (.named "A")) .nat), s) ∧
      (∀ x d, s.defs.get? x = some d → ∃ A, s.ctx.lookup? x = some A ∧
        Resolves (declarations accepted) (unfolded accepted (.fvar x)) d ∧
        (Current accepted s.ctx (unfolded accepted (.fvar x)) → s.ctx.Finds d A ∨
          (typeCheck d s.ctx = .error (.fault .counterOverflow) ∧ s.ctx.Exhausts d))) ∧
      ∀ fuel t span v A s', s.process fuel .eval (.expr t span) = .ok (.evaluated v A, s') →
        ∃ w, Evaluation.Yields (.term (unfolded accepted t)) (.ok w) ∧
          w.substConsts (untagging (declarations accepted)) = v ∧
          (Current accepted s.ctx w → s.ctx.Finds v A ∨
            (typeCheck v s.ctx = .error (.fault .counterOverflow) ∧ s.ctx.Exhausts v)) := by
  refine ⟨_, _, rfl, rfl, ?_⟩
  generalize hc : Ident.named "c" = c
  generalize hd : Ident.named "d" = d
  let s : Session := ⟨(((Context.empty.declare c .nat).declare d
    (.arrow (.var (.named "A")) .nat)).declare c .bool).declare c .nat,
    ((((∅ : ConstSubst).erase c).insert d (.lam (.succ (.fvar c)))).erase c).erase c⟩
  have hreached : Reached _ s :=
    ((reached_succ hc.symm d).declare c .bool ⟨0, 0⟩).declare c .nat ⟨0, 0⟩
  have hunfolded : unfolded [.declare c .nat ⟨0, 0⟩, .declare c .bool ⟨0, 0⟩,
      .define d (.lam (.succ (.fvar c))) ⟨0, 0⟩, .declare c .nat ⟨0, 0⟩] (.fvar d) =
      .lam (.succ (.fvar (.fresh 0))) := by
    subst hc hd
    rfl
  have hlookup : s.ctx.lookup? c = some .nat := by
    rw [Context.lookup?_declare, if_pos rfl]
  have hinfer : s.infer (.fvar d) ⟨0, 0⟩ = .ok (.arrow (.var (.named "A")) .nat) := by
    subst hc hd
    rw [infer, typeCheck_eq]
    rfl
  have hexpand : s.expand (.fvar d) = .ok (.lam (.succ (.fvar c))) := by
    subst hc hd
    rfl
  refine ⟨_, s, hreached, rfl, ?_, hunfolded, ?_, ?_, hreached.recorded_type⟩
  · subst hc hd
    rfl
  · rw [hunfolded]
    rintro tag rfl
    exact ⟨c, .nat, by subst hc hd; rfl, fun _ => rfl, hlookup⟩
  · rw [process_eval_eq, hinfer, hexpand]
    rfl

end Session

end SystemT
