import SystemT.Proofs.Session.Sound
import SystemT.Proofs.Term.Expansion

/-!
# Definitions are lexically scoped

A name may be declared again and again, and a use of it means the latest declaration before that
use. Here this is said without the expanded definitions that a session keeps. Declarations are
numbered, and the `k`-th of them is given the generated identifier `?k` as its tag. Putting tags for
names (`tagging`) makes a term mean the same wherever it stands. Definitions can then be inlined as
they were written, one declaration after the other from the newest to the oldest (`inline`), and
what is left are tags of declarations without a body, which are turned into names again
(`untagging`). All constants of a term in scope are declared, and tags take the place of all of them
at once, so that no tag is mistaken for a name, be it a generated one.

A session stores each definition with the earlier ones put in, and expands an expression in a single
pass. Both come to the same: for lists of declarations by `Scoped.expands`, in which one more
declaration is one more case, and for the sessions that processing forms leads to by
`Session.Reached.lexically_scoped`.
-/

namespace SystemT

/-- A declaration of a name. A definition has a body, which is kept as it was written. -/
structure Declaration where
  name : Ident
  body? : Option Term

namespace Declaration

/-! ## Tags -/

/-- The tag of the declaration after `earlier`. -/
def nextTag (earlier : List Declaration) : Ident := .fresh earlier.length

/-- Puts for a name the tag of its latest declaration. In a list of declarations the latest of all
comes first. -/
def tagging : List Declaration → ConstSubst
  | [] => ∅
  | d :: earlier => (tagging earlier).insert d.name (.fvar (nextTag earlier))

/-- Puts for a tag the name that was declared. -/
def untagging : List Declaration → ConstSubst
  | [] => ∅
  | d :: earlier => (untagging earlier).insert (nextTag earlier) (.fvar d.name)

/-- Inline the definitions into a tagged term, from the newest to the oldest. Uses of names in a
body are tagged with declarations before it. -/
def inline : List Declaration → Term → Term
  | [], t => t
  | ⟨_, none⟩ :: earlier, t => inline earlier t
  | ⟨_, some body⟩ :: earlier, t =>
    inline earlier (t.substConsts
      ((∅ : ConstSubst).insert (nextTag earlier) (body.substConsts (tagging earlier))))

/-- Nothing but tags of declarations without a body is left in `v`, and with names for tags it
is `u`. The number of a declaration counts from the oldest on. -/
structure Resolves (ds : List Declaration) (v u : Term) : Prop where
  undefined : ∀ y, v.HasConst y → ∃ k x, y = .fresh k ∧ ds.reverse[k]? = some ⟨x, none⟩
  untagged : v.substConsts (untagging ds) = u

/-- Tagging a term and inlining all definitions leads to `u`. -/
def Expands (ds : List Declaration) (t u : Term) : Prop :=
  Resolves ds (inline ds (t.substConsts (tagging ds))) u

/-- The name `x` is declared. -/
def Declared (ds : List Declaration) (x : Ident) : Prop := ∃ d ∈ ds, d.name = x

/-- Every constant of the term is declared. -/
def InScope (ds : List Declaration) (t : Term) : Prop := ∀ x, t.HasConst x → Declared ds x

/-- Bodies are closed and use nothing but what was declared before. -/
inductive Scoped : List Declaration → Prop where
  | nil : Scoped []
  | assume {x : Ident} {earlier : List Declaration} (h : Scoped earlier) :
      Scoped (⟨x, none⟩ :: earlier)
  | define {x : Ident} {body : Term} {earlier : List Declaration} (h : Scoped earlier)
      (hclosed : body.closed = true) (hscope : InScope earlier body) :
      Scoped (⟨x, some body⟩ :: earlier)

/-- What the names stand for when each body is expanded at its declaration. -/
def meaning : List Declaration → ConstSubst
  | [] => ∅
  | ⟨x, none⟩ :: earlier => (meaning earlier).erase x
  | ⟨x, some body⟩ :: earlier => (meaning earlier).insert x (body.substConsts (meaning earlier))

variable {ds : List Declaration} {t u v : Term} {x y : Ident}

theorem closed_tagging (ds : List Declaration) : (tagging ds).Closed := by
  induction ds with
  | nil => exact ConstSubst.closed_empty
  | cons d ds ih => exact ih.insert d.name rfl

theorem closed_untagging (ds : List Declaration) : (untagging ds).Closed := by
  induction ds with
  | nil => exact ConstSubst.closed_empty
  | cons d ds ih => exact ih.insert (nextTag ds) rfl

theorem Scoped.closed_meaning (h : Scoped ds) : (meaning ds).Closed := by
  induction h with
  | nil => exact ConstSubst.closed_empty
  | @assume x _ _ ih => exact ih.erase x
  | @define x _ _ _ hclosed _ ih => exact ih.insert x (Term.closedAt_substConsts ih hclosed)

/-- What is not declared by the latest declaration is declared before. -/
theorem Declared.of_cons {d : Declaration} (h : Declared (d :: ds) x) (hx : d.name ≠ x) :
    Declared ds x := by
  obtain ⟨e, he, hex⟩ := h
  rcases List.mem_cons.mp he with rfl | he
  · exact absurd hex hx
  · exact ⟨e, he, hex⟩

theorem Declared.inScope (h : Declared ds x) : InScope ds (.fvar x) := by
  rintro y rfl
  exact h

/-- A declared name has the tag of one of the declarations. -/
theorem Declared.image_tagging (h : Declared ds x) :
    ∃ k, k < ds.length ∧ (tagging ds).image x = .fvar (.fresh k) := by
  induction ds with
  | nil =>
    obtain ⟨d, hd, -⟩ := h
    cases hd
  | cons d ds ih =>
    rw [tagging, ConstSubst.image_insert]
    by_cases hx : d.name = x
    · rw [if_pos hx]
      exact ⟨ds.length, Nat.lt_succ_self _, rfl⟩
    · rw [if_neg hx]
      obtain ⟨k, hk, himage⟩ := ih (h.of_cons hx)
      exact ⟨k, Nat.lt_succ_of_lt hk, himage⟩

/-! ## Inlining -/

/-- The definitions that are inlined one after the other, as one map. -/
def inlining : List Declaration → ConstSubst
  | [] => ∅
  | ⟨_, none⟩ :: earlier => inlining earlier
  | ⟨_, some body⟩ :: earlier =>
    ((∅ : ConstSubst).insert (nextTag earlier) (body.substConsts (tagging earlier))).compose
      (inlining earlier)

theorem Scoped.closed_inlining (h : Scoped ds) : (inlining ds).Closed := by
  induction h with
  | nil => exact ConstSubst.closed_empty
  | assume _ ih => exact ih
  | @define x body earlier _ hclosed _ ih =>
    have hbody := Term.closedAt_substConsts (closed_tagging earlier) hclosed
    exact (ConstSubst.closed_empty.insert _ hbody).compose ih

theorem Scoped.inline_eq (h : Scoped ds) (t : Term) :
    inline ds t = t.substConsts (inlining ds) := by
  induction h generalizing t with
  | nil => exact (Term.substConsts_empty t).symm
  | assume _ ih => exact ih t
  | define _ _ _ ih => rw [inline, inlining, ih, Term.substConsts_compose]

/-- A declaration is inlined for its own tag alone. -/
theorem inline_cons_of_ne (d : Declaration) {k : Nat} (hk : k ≠ ds.length) :
    inline (d :: ds) (.fvar (.fresh k)) = inline ds (.fvar (.fresh k)) := by
  obtain ⟨x, _ | body⟩ := d
  · rfl
  · have hne : nextTag ds ≠ .fresh k := by
      rintro ⟨⟩
      exact hk rfl
    have hkept : (Term.fvar (.fresh k)).substConsts ((∅ : ConstSubst).insert (nextTag ds)
        (body.substConsts (tagging ds))) = .fvar (.fresh k) := by
      show ConstSubst.image _ _ = _
      rw [ConstSubst.image_insert, if_neg hne, ConstSubst.image_empty]
    rw [inline, hkept]

/-- A tag that no declaration has stays. -/
theorem inline_of_length_le {k : Nat} (hk : ds.length ≤ k) :
    inline ds (.fvar (.fresh k)) = .fvar (.fresh k) := by
  induction ds with
  | nil => rfl
  | cons d ds ih =>
    rw [List.length_cons] at hk
    rw [inline_cons_of_ne d (by omega)]
    exact ih (by omega)

/-! ## Expansion -/

/-- Later declarations change neither the numbers nor the names of earlier ones. -/
theorem Resolves.cons (h : Resolves ds v u) (d : Declaration) : Resolves (d :: ds) v u where
  undefined := by
    intro y hy
    obtain ⟨k, x, rfl, hk⟩ := h.undefined y hy
    have hlt := (List.getElem?_eq_some_iff.mp hk).1
    refine ⟨k, x, rfl, ?_⟩
    rw [List.reverse_cons, List.getElem?_append_left hlt, hk]
  untagged := by
    have hkept : v.substConsts (untagging (d :: ds)) = v.substConsts (untagging ds) := by
      refine Term.substConsts_congr (closed_untagging _) (closed_untagging _) ?_
      intro y hy
      obtain ⟨k, x, rfl, hk⟩ := h.undefined y hy
      have hlt := (List.getElem?_eq_some_iff.mp hk).1
      rw [List.length_reverse] at hlt
      have hne : nextTag ds ≠ .fresh k := by
        rintro ⟨⟩
        exact Nat.lt_irrefl _ hlt
      rw [untagging, ConstSubst.image_insert, if_neg hne]
    rw [hkept, h.untagged]

/-- Tagging and inlining are one map together. -/
theorem Scoped.inline_tagging (h : Scoped ds) (t : Term) : inline ds (t.substConsts (tagging ds)) =
    t.substConsts ((tagging ds).compose (inlining ds)) := by
  rw [h.inline_eq, Term.substConsts_compose]

theorem Scoped.closed_compose (h : Scoped ds) : ((tagging ds).compose (inlining ds)).Closed :=
  (closed_tagging ds).compose h.closed_inlining

/-- A name that is not declared anew means what it did. -/
theorem inline_tagging_of_ne {d : Declaration} (hne : d.name ≠ y) (hy : Declared ds y) :
    inline (d :: ds) ((Term.fvar y).substConsts (tagging (d :: ds))) =
      inline ds ((Term.fvar y).substConsts (tagging ds)) := by
  obtain ⟨k, hk, himage⟩ := hy.image_tagging
  have htag : (Term.fvar y).substConsts (tagging ds) = .fvar (.fresh k) := himage
  have htag' : (Term.fvar y).substConsts (tagging (d :: ds)) = .fvar (.fresh k) := by
    show (tagging (d :: ds)).image y = _
    rw [tagging, ConstSubst.image_insert, if_neg hne, himage]
  rw [htag, htag', inline_cons_of_ne d (Nat.ne_of_lt hk)]

/-- The name that was declared last stands for that declaration. -/
theorem substConsts_tagging_self (d : Declaration) (ds : List Declaration) :
    (Term.fvar d.name).substConsts (tagging (d :: ds)) = .fvar (nextTag ds) := by
  show (tagging (d :: ds)).image d.name = _
  rw [tagging, ConstSubst.image_insert, if_pos rfl]

/-- A name that was declared last, without a body, means its declaration. -/
theorem inline_tagging_assume (x : Ident) (ds : List Declaration) :
    inline (⟨x, none⟩ :: ds) ((Term.fvar x).substConsts (tagging (⟨x, none⟩ :: ds))) =
      .fvar (nextTag ds) := by
  rw [substConsts_tagging_self ⟨x, none⟩, inline, nextTag,
    inline_of_length_le (Nat.le_refl ds.length)]

/-- A name that was declared last, with a body, means what the body does. -/
theorem inline_tagging_define (x : Ident) (t : Term) (ds : List Declaration) :
    inline (⟨x, some t⟩ :: ds) ((Term.fvar x).substConsts (tagging (⟨x, some t⟩ :: ds))) =
      inline ds (t.substConsts (tagging ds)) := by
  have hbody : (Term.fvar (nextTag ds)).substConsts ((∅ : ConstSubst).insert (nextTag ds)
      (t.substConsts (tagging ds))) = t.substConsts (tagging ds) := by
    show ConstSubst.image _ _ = _
    rw [ConstSubst.image_insert, if_pos rfl]
  rw [substConsts_tagging_self ⟨x, some t⟩, inline, hbody]

/-- Terms expand as their constants do. -/
theorem Expands.of_consts (hds : Scoped ds) {s : ConstSubst} (hs : s.Closed)
    (h : ∀ x, t.HasConst x → Expands ds (.fvar x) (s.image x)) :
    Expands ds t (t.substConsts s) := by
  -- tagging, inlining and untagging are one map together
  have hr := hds.closed_compose
  simp only [Expands, hds.inline_tagging] at h ⊢
  constructor
  · intro y hy
    obtain ⟨x, hx, hy⟩ := Term.hasConst_substConsts hr hy
    exact (h x hx).undefined y hy
  · rw [← Term.substConsts_compose]
    refine Term.substConsts_congr (hr.compose (closed_untagging ds)) hs ?_
    intro x hx
    have himage := (h x hx).untagged
    rw [← Term.substConsts_compose] at himage
    exact himage

/-- A name that is not declared anew expands as before. -/
theorem Expands.cons (h : Expands ds (.fvar y) u) {d : Declaration} (hne : d.name ≠ y)
    (hy : Declared ds y) : Expands (d :: ds) (.fvar y) u := by
  rw [Expands, inline_tagging_of_ne hne hy]
  exact Resolves.cons h d

/-- A name that was declared last, without a body, expands to itself. -/
theorem expands_assume (x : Ident) (ds : List Declaration) :
    Expands (⟨x, none⟩ :: ds) (.fvar x) (.fvar x) := by
  rw [Expands, inline_tagging_assume]
  constructor
  · rintro y rfl
    refine ⟨ds.length, x, rfl, ?_⟩
    rw [List.reverse_cons, ← List.length_reverse, List.getElem?_concat_length]
  · show (untagging (⟨x, none⟩ :: ds)).image (nextTag ds) = .fvar x
    rw [untagging, ConstSubst.image_insert, if_pos rfl]

/-- A name that was declared last, with a body, expands as the body does. -/
theorem Expands.define (h : Expands ds t u) (x : Ident) :
    Expands (⟨x, some t⟩ :: ds) (.fvar x) u := by
  rw [Expands, inline_tagging_define]
  exact Resolves.cons h ⟨x, some t⟩

/-- **Expanding each body at its declaration is inlining the bodies as they were written**, where
each use of a name is tagged with the declaration that it means. -/
theorem Scoped.expands (hds : Scoped ds) (ht : InScope ds t) :
    Expands ds t (t.substConsts (meaning ds)) := by
  induction hds generalizing t with
  | nil =>
    refine .of_consts .nil ConstSubst.closed_empty ?_
    intro y hy
    obtain ⟨d, hd, -⟩ := ht y hy
    cases hd
  | @assume x earlier h ih =>
    have hds : Scoped (⟨x, none⟩ :: earlier) := .assume h
    refine .of_consts hds hds.closed_meaning ?_
    intro y hy
    rw [meaning, ConstSubst.image_erase]
    by_cases hxy : x = y
    · subst hxy
      rw [if_pos rfl]
      exact expands_assume x earlier
    · rw [if_neg hxy]
      have hbefore : Declared earlier y := (ht y hy).of_cons hxy
      exact (ih hbefore.inScope).cons hxy hbefore
  | @define x body earlier h hclosed hscope ih =>
    have hds : Scoped (⟨x, some body⟩ :: earlier) := .define h hclosed hscope
    refine .of_consts hds hds.closed_meaning ?_
    intro y hy
    rw [meaning, ConstSubst.image_insert]
    by_cases hxy : x = y
    · subst hxy
      rw [if_pos rfl]
      exact (ih hscope).define x
    · rw [if_neg hxy]
      have hbefore : Declared earlier y := (ht y hy).of_cons hxy
      exact (ih hbefore.inScope).cons hxy hbefore

/-- A name has a definition if the latest declaration of it has a body. -/
theorem get?_meaning_iff (ds : List Declaration) (x : Ident) :
    (∃ d, (meaning ds).get? x = some d) ↔
      ∃ body, ds.find? (·.name = x) = some ⟨x, some body⟩ := by
  induction ds with
  | nil => simp [meaning]
  | cons d ds ih =>
    obtain ⟨y, _ | body⟩ := d
    · rw [meaning, ConstSubst.get?_erase]
      by_cases hxy : y = x
      · simp [hxy]
      · simpa [hxy] using ih
    · rw [meaning, ConstSubst.get?_insert]
      by_cases hxy : y = x
      · simp [hxy]
      · simpa [hxy] using ih

/-- A definition is the expansion of the body that its name was last declared with. -/
theorem Scoped.expands_of_get? (hds : Scoped ds) {d : Term} (hx : (meaning ds).get? x = some d) :
    ∃ later body earlier, ds = later ++ ⟨x, some body⟩ :: earlier ∧ (∀ e ∈ later, e.name ≠ x) ∧
      Expands earlier body d := by
  induction hds with
  | nil =>
    have hnone : (∅ : ConstSubst).get? x = none := ConstSubst.get?_empty x
    exact nomatch hnone.symm.trans hx
  | @assume y earlier _ ih =>
    rw [meaning, ConstSubst.get?_erase] at hx
    by_cases hxy : y = x
    · rw [if_pos hxy] at hx
      cases hx
    · rw [if_neg hxy] at hx
      obtain ⟨later, body, before, rfl, hlater, hexpands⟩ := ih hx
      exact ⟨⟨y, none⟩ :: later, body, before, rfl, List.forall_mem_cons.mpr ⟨hxy, hlater⟩,
        hexpands⟩
  | @define y body earlier h _ hscope ih =>
    rw [meaning, ConstSubst.get?_insert] at hx
    by_cases hxy : y = x
    · rw [if_pos hxy] at hx
      cases hx
      subst hxy
      exact ⟨[], body, earlier, rfl, (fun _ he => nomatch he), h.expands hscope⟩
    · rw [if_neg hxy] at hx
      obtain ⟨later, b, before, rfl, hlater, hexpands⟩ := ih hx
      exact ⟨⟨y, some body⟩ :: later, b, before, rfl, List.forall_mem_cons.mpr ⟨hxy, hlater⟩,
        hexpands⟩

end Declaration

namespace Session

open Declaration

/-! ## Sessions -/

/-- The declarations among some forms. -/
def declarations : List Form → List Declaration
  | [] => []
  | .define x t _ :: forms => ⟨x, some t⟩ :: declarations forms
  | .declare x _ _ :: forms => ⟨x, none⟩ :: declarations forms
  | .expr _ _ :: forms => declarations forms

/-- What a session has of the declarations that were accepted: their meaning, and at least one
declaration for each name that has a type. -/
structure Scoping (accepted : List Form) (s : Session) : Prop where
  ordered : Scoped (declarations accepted)
  defs : s.defs = meaning (declarations accepted)
  declared : ∀ x A, s.ctx.lookup? x = some A → Declared (declarations accepted) x

theorem scoping_start : Scoping [] {} where
  ordered := .nil
  defs := rfl
  declared := by
    intro x A hx
    have hnone : Context.empty.lookup? x = none := Context.lookup?_empty x
    exact nomatch hnone.symm.trans hx

variable {accepted : List Form} {s s' : Session}

/-- What type checks uses nothing but declared names. -/
theorem Scoping.inScope (h : Scoping accepted s) (hs : Sound accepted s) {t : Term} {r : Inferred}
    (ht : typeCheck t s.ctx = .ok r) : InScope (declarations accepted) t := by
  intro x hx
  obtain ⟨A, hA⟩ := (typing_of_typeCheck hs.bound ht).of_hasConst hx
  exact h.declared x A hA

/-- Declaring one more name leaves the others declared. -/
theorem Scoping.declared_declare (h : Scoping accepted s) {x : Ident} {A : Ty} {d : Declaration}
    (hd : d.name = x) :
    ∀ y B, (s.ctx.declare x A).lookup? y = some B → Declared (d :: declarations accepted) y := by
  intro y B hy
  rw [Context.lookup?_declare] at hy
  by_cases hxy : x = y
  · exact ⟨d, List.mem_cons_self, hd.trans hxy⟩
  · rw [if_neg hxy] at hy
    obtain ⟨e, he, hey⟩ := h.declared y B hy
    exact ⟨e, List.mem_cons_of_mem d he, hey⟩

theorem Scoping.process (h : Scoping accepted s) (hs : Sound accepted s) {fuel : Nat} {mode : Mode}
    {form : Form} {outcome : Outcome} (hform : s.process fuel mode form = .ok (outcome, s')) :
    Scoping (form :: accepted) s' := by
  cases form with
  | define x t span =>
    obtain ⟨r, hr, rfl⟩ := hs.process_define hform
    have hclosed : t.closed = true := (typing_of_typeCheck hs.bound hr).closedAt
    refine ⟨.define h.ordered hclosed (h.inScope hs hr), ?_, h.declared_declare rfl⟩
    rw [declarations, meaning, ← h.defs]
  | declare x A span =>
    cases hform
    refine ⟨.assume h.ordered, ?_, h.declared_declare rfl⟩
    rw [declarations, meaning, ← h.defs]
  | expr t span =>
    obtain rfl := process_expr_ok hform
    exact ⟨h.ordered, h.defs, h.declared⟩

theorem Reached.scoping (h : Reached accepted s) : Scoping accepted s := by
  induction h with
  | start => exact scoping_start
  | accept h hform ih => exact ih.process h.sound hform
  | refuse _ _ ih => exact ih

/-- **Definitions are lexically scoped, and one pass expands them fully.** In a session that any
forms have led to, a name has a definition exactly if the latest accepted declaration of it has a
body; definitions are closed; an expression that type checks is expanded as if the original bodies
had been inlined from the newest to the oldest, each use of a name meaning the latest declaration
before it; and so was the body that a definition was stored for. -/
theorem Reached.lexically_scoped (h : Reached accepted s) :
    (∀ x, (∃ d, s.defs.get? x = some d) ↔
      ∃ body, (declarations accepted).find? (·.name = x) = some ⟨x, some body⟩) ∧
    s.defs.Closed ∧
    (∀ t r, typeCheck t s.ctx = .ok r →
      Expands (declarations accepted) t (t.substConsts s.defs)) ∧
    ∀ x d, s.defs.get? x = some d → ∃ later body earlier,
      declarations accepted = later ++ ⟨x, some body⟩ :: earlier ∧ (∀ e ∈ later, e.name ≠ x) ∧
        Expands earlier body d := by
  have hscoping := h.scoping
  refine ⟨?_, h.sound.closed, ?_, ?_⟩
  · intro x
    rw [hscoping.defs]
    exact get?_meaning_iff _ x
  · intro t r ht
    have hscope : InScope (declarations accepted) t := hscoping.inScope h.sound ht
    rw [hscoping.defs]
    exact hscoping.ordered.expands hscope
  · intro x d hd
    rw [hscoping.defs] at hd
    exact hscoping.ordered.expands_of_get? hd

/-- `x` is declared, used twice in `y := (x, x)` and once more in `x := (y, x)`, and then `y` is
declared anew. An expression with both names is expanded to a term in which `y` is the last
declaration of that name and every `x` the first one, although `x` has a definition by now. -/
theorem Reached.lexically_scoped_redeclared :
    ∃ x y, x = Ident.named "x" ∧ y = Ident.named "y" ∧ ∃ accepted s, Reached accepted s ∧
      declarations accepted = [⟨y, none⟩, ⟨x, some (.pair (.fvar y) (.fvar x))⟩,
        ⟨y, some (.pair (.fvar x) (.fvar x))⟩, ⟨x, none⟩] ∧
      (typeCheck (.pair (.fvar y) (.fvar x)) s.ctx).isOk = true ∧
      inline (declarations accepted)
          ((Term.pair (.fvar y) (.fvar x)).substConsts (tagging (declarations accepted))) =
        .pair (.fvar (.fresh 3))
          (.pair (.pair (.fvar (.fresh 0)) (.fvar (.fresh 0))) (.fvar (.fresh 0))) ∧
      (Term.pair (.fvar y) (.fvar x)).substConsts s.defs =
        .pair (.fvar y) (.pair (.pair (.fvar x) (.fvar x)) (.fvar x)) ∧
      (∀ x, (∃ d, s.defs.get? x = some d) ↔
        ∃ body, (declarations accepted).find? (·.name = x) = some ⟨x, some body⟩) ∧
      s.defs.Closed ∧
      (∀ t r, typeCheck t s.ctx = .ok r →
        Expands (declarations accepted) t (t.substConsts s.defs)) ∧
      ∀ x d, s.defs.get? x = some d → ∃ later body earlier,
        declarations accepted = later ++ ⟨x, some body⟩ :: earlier ∧ (∀ e ∈ later, e.name ≠ x) ∧
          Expands earlier body d := by
  refine ⟨_, _, rfl, rfl, ?_⟩
  generalize hx : Ident.named "x" = x
  generalize hy : Ident.named "y" = y
  -- the session after each of the four declarations
  let s₁ : Session := ⟨Context.empty.declare x .nat, (∅ : ConstSubst).erase x⟩
  let s₂ : Session := ⟨s₁.ctx.declare y (.prod .nat .nat),
    s₁.defs.insert y (.pair (.fvar x) (.fvar x))⟩
  let s₃ : Session := ⟨s₂.ctx.declare x (.prod (.prod .nat .nat) .nat),
    s₂.defs.insert x (.pair (.pair (.fvar x) (.fvar x)) (.fvar x))⟩
  let s₄ : Session := ⟨s₃.ctx.declare y .bool, s₃.defs.erase y⟩
  have h₁ : Session.process {} 9 .check (.declare x .nat ⟨0, 0⟩) =
      .ok (.declared x .nat, s₁) := rfl
  have h₂ : s₁.process 9 .check (.define y (.pair (.fvar x) (.fvar x)) ⟨0, 0⟩) =
      .ok (.defined y (.prod .nat .nat), s₂) := by
    have hinfer : s₁.infer (.pair (.fvar x) (.fvar x)) ⟨0, 0⟩ = .ok (.prod .nat .nat) := by
      subst hx hy
      rw [infer, typeCheck_eq]
      cbv
    have hexpand : s₁.expand (.pair (.fvar x) (.fvar x)) = .ok (.pair (.fvar x) (.fvar x)) := by
      subst hx hy
      cbv
    rw [process_define_eq, hinfer, hexpand]
    rfl
  have h₃ : s₂.process 9 .check (.define x (.pair (.fvar y) (.fvar x)) ⟨0, 0⟩) =
      .ok (.defined x (.prod (.prod .nat .nat) .nat), s₃) := by
    have hinfer : s₂.infer (.pair (.fvar y) (.fvar x)) ⟨0, 0⟩ =
        .ok (.prod (.prod .nat .nat) .nat) := by
      subst hx hy
      rw [infer, typeCheck_eq]
      cbv
    have hexpand : s₂.expand (.pair (.fvar y) (.fvar x)) =
        .ok (.pair (.pair (.fvar x) (.fvar x)) (.fvar x)) := by
      subst hx hy
      cbv
    rw [process_define_eq, hinfer, hexpand]
    rfl
  have h₄ : s₃.process 9 .check (.declare y .bool ⟨0, 0⟩) = .ok (.declared y .bool, s₄) := rfl
  have hreached := (((Reached.start.accept h₁).accept h₂).accept h₃).accept h₄
  refine ⟨_, s₄, hreached, rfl, ?_, ?_, ?_, hreached.lexically_scoped⟩
  · subst hx hy
    rw [typeCheck_eq]
    cbv
  · subst hx hy
    cbv
  · subst hx hy
    cbv

end Session

end SystemT
