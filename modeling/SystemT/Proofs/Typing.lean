import SystemT.Proofs.Term.Constants
import SystemT.Proofs.Ty.Subst

/-!
# Typing

The typing rules of System T (`Typing`), as a relation that computes nothing. What type a constant
may be used at is a parameter. In a context it is the one that the constant is declared at
(`Context.Types`); where a constant was declared several times, one after the other, terms from
different times may use it at different types.

Typing is kept by type substitutions, as long as these respect the constants (`Typing.apply`), by
moving a term below a further binder (`Typing.shift`) and putting a term for a bound variable of its
type (`Typing.subst`), and by expanding constants to closed terms of the types that they are used at
(`Typing.substConsts`).
-/

namespace SystemT

/-- The typing rules, for binders of the types in a list, innermost first. -/
inductive Typing (const : Ident → Ty → Prop) : List Ty → Term → Ty → Prop where
  | bvar {Γ : List Ty} {i : Nat} {A : Ty} : Γ[i]? = some A → Typing const Γ (.bvar i) A
  | fvar {Γ : List Ty} {x : Ident} {A : Ty} : const x A → Typing const Γ (.fvar x) A
  | lam {Γ : List Ty} {b : Term} {A B : Ty} :
      Typing const (A :: Γ) b B → Typing const Γ (.lam b) (.arrow A B)
  | app {Γ : List Ty} {f a : Term} {A B : Ty} :
      Typing const Γ f (.arrow A B) → Typing const Γ a A → Typing const Γ (.app f a) B
  | pair {Γ : List Ty} {a b : Term} {A B : Ty} :
      Typing const Γ a A → Typing const Γ b B → Typing const Γ (.pair a b) (.prod A B)
  | fst {Γ : List Ty} {p : Term} {A B : Ty} :
      Typing const Γ p (.prod A B) → Typing const Γ (.fst p) A
  | snd {Γ : List Ty} {p : Term} {A B : Ty} :
      Typing const Γ p (.prod A B) → Typing const Γ (.snd p) B
  | tt {Γ : List Ty} : Typing const Γ .tt .bool
  | ff {Γ : List Ty} : Typing const Γ .ff .bool
  | cond {Γ : List Ty} {c t e : Term} {A : Ty} :
      Typing const Γ c .bool → Typing const Γ t A → Typing const Γ e A →
        Typing const Γ (.cond c t e) A
  | zero {Γ : List Ty} : Typing const Γ .zero .nat
  | succ {Γ : List Ty} {t : Term} : Typing const Γ t .nat → Typing const Γ (.succ t) .nat
  | natRec {Γ : List Ty} {base step n : Term} {A : Ty} :
      Typing const Γ base A → Typing const Γ step (.arrow .nat (.arrow A A)) →
        Typing const Γ n .nat → Typing const Γ (.natRec base step n) A

/-- A term has a type in a context if it does at the types that the constants are declared at. -/
def Context.Types (Γ : Context) (t : Term) (A : Ty) : Prop :=
  Typing (fun x B => Γ.lookup? x = some B) Γ.bound t A

/-- A typed term is closed at the depth of its context. -/
theorem Typing.closedAt {const : Ident → Ty → Prop} {Γ : List Ty} {t : Term} {A : Ty}
    (h : Typing const Γ t A) : t.closedAt Γ.length = true := by
  induction h with
  | bvar hi =>
    have := (List.getElem?_eq_some_iff.mp hi).1
    simpa [Term.closedAt] using this
  | fvar | tt | ff | zero => rfl
  | lam _ ih | fst _ ih | snd _ ih | succ _ ih => exact ih
  | app _ _ ih₁ ih₂ | pair _ _ ih₁ ih₂ => rw [Term.closedAt, ih₁, ih₂, Bool.and_true]
  | cond _ _ _ ih₁ ih₂ ih₃ | natRec _ _ _ ih₁ ih₂ ih₃ =>
    rw [Term.closedAt, ih₁, ih₂, ih₃, Bool.and_true, Bool.and_true]

/-- The constants of a typed term are used at types that are allowed for them. -/
theorem Typing.of_hasConst {const : Ident → Ty → Prop} {Γ : List Ty} {t : Term} {A : Ty}
    (h : Typing const Γ t A) {x : Ident} (hx : t.HasConst x) : ∃ B, const x B := by
  induction h with
  | fvar hy =>
    cases hx
    exact ⟨_, hy⟩
  | bvar | tt | ff | zero => exact absurd hx id
  | lam _ ih | fst _ ih | snd _ ih | succ _ ih => exact ih hx
  | app _ _ ih₁ ih₂ | pair _ _ ih₁ ih₂ =>
    rcases hx with hx | hx
    · exact ih₁ hx
    · exact ih₂ hx
  | cond _ _ _ ih₁ ih₂ ih₃ | natRec _ _ _ ih₁ ih₂ ih₃ =>
    rcases hx with hx | hx | hx
    · exact ih₁ hx
    · exact ih₂ hx
    · exact ih₃ hx

/-- What types other constants may be used at does not matter. -/
theorem Typing.of_consts {const const' : Ident → Ty → Prop} {Γ : List Ty} {t : Term} {A : Ty}
    (h : Typing const Γ t A) (hconst : ∀ x B, t.HasConst x → const x B → const' x B) :
    Typing const' Γ t A := by
  induction h with
  | bvar hi => exact .bvar hi
  | fvar hx => exact .fvar (hconst _ _ rfl hx)
  | lam _ ih => exact .lam (ih hconst)
  | app _ _ ihf iha =>
    exact .app (ihf fun x B hx => hconst x B (.inl hx)) (iha fun x B hx => hconst x B (.inr hx))
  | pair _ _ iha ihb =>
    exact .pair (iha fun x B hx => hconst x B (.inl hx)) (ihb fun x B hx => hconst x B (.inr hx))
  | fst _ ih => exact .fst (ih hconst)
  | snd _ ih => exact .snd (ih hconst)
  | tt => exact .tt
  | ff => exact .ff
  | cond _ _ _ ihc iht ihe =>
    exact .cond (ihc fun x B hx => hconst x B (.inl hx))
      (iht fun x B hx => hconst x B (.inr (.inl hx)))
      (ihe fun x B hx => hconst x B (.inr (.inr hx)))
  | zero => exact .zero
  | succ _ ih => exact .succ (ih hconst)
  | natRec _ _ _ ihb ihs ihn =>
    exact .natRec (ihb fun x B hx => hconst x B (.inl hx))
      (ihs fun x B hx => hconst x B (.inr (.inl hx)))
      (ihn fun x B hx => hconst x B (.inr (.inr hx)))

/-! ## Type substitutions -/

/-- A type substitution keeps a typing if it takes what constants may be used at to such types
again. -/
theorem Typing.apply {const const' : Ident → Ty → Prop} {Γ : List Ty} {t : Term} {A : Ty}
    (h : Typing const Γ t A) (s : Subst) (hconst : ∀ x B, const x B → const' x (s.apply B)) :
    Typing const' (Γ.map s.apply) t (s.apply A) := by
  induction h with
  | bvar hi => exact .bvar (by rw [List.getElem?_map, hi]; rfl)
  | fvar hx => exact .fvar (hconst _ _ hx)
  | lam _ ih => exact .lam ih
  | app _ _ ihf iha => exact .app ihf iha
  | pair _ _ iha ihb => exact .pair iha ihb
  | fst _ ih => exact .fst ih
  | snd _ ih => exact .snd ih
  | tt => exact .tt
  | ff => exact .ff
  | cond _ _ _ ihc iht ihe => exact .cond ihc iht ihe
  | zero => exact .zero
  | succ _ ih => exact .succ ih
  | natRec _ _ _ ihb ihs ihn => exact .natRec ihb ihs ihn

/-! ## Bound variables -/

/-- Binders further out do not matter to a typing. -/
theorem Typing.weaken {const : Ident → Ty → Prop} {Γ : List Ty} {t : Term} {A : Ty}
    (h : Typing const Γ t A) (Δ : List Ty) : Typing const (Γ ++ Δ) t A := by
  induction h with
  | @bvar Γ i A hi =>
    have hlt : i < Γ.length := (List.getElem?_eq_some_iff.mp hi).1
    exact .bvar (by rw [List.getElem?_append_left hlt, hi])
  | fvar hx => exact .fvar hx
  | lam _ ih => exact .lam ih
  | app _ _ ihf iha => exact .app ihf iha
  | pair _ _ iha ihb => exact .pair iha ihb
  | fst _ ih => exact .fst ih
  | snd _ ih => exact .snd ih
  | tt => exact .tt
  | ff => exact .ff
  | cond _ _ _ ihc iht ihe => exact .cond ihc iht ihe
  | zero => exact .zero
  | succ _ ih => exact .succ ih
  | natRec _ _ _ ihb ihs ihn => exact .natRec ihb ihs ihn

/-- A term may be moved below one more binder, inside of which `n` others lie. -/
theorem Typing.shift {const : Ident → Ty → Prop} {Γ : List Ty} {t : Term} {A : Ty}
    (h : Typing const Γ t A) (n : Nat) (U : Ty) : Typing const (Γ.insertIdx n U) (t.shift n) A := by
  unfold Term.shift
  induction h generalizing n with
  | @bvar Γ i A hi =>
    rw [Term.shiftBy_bvar]
    by_cases hlt : i < n
    · rw [if_pos hlt]
      exact .bvar (by rw [List.getElem?_insertIdx_of_lt hlt, hi])
    · rw [if_neg hlt]
      exact .bvar (by rw [List.getElem?_insertIdx_of_gt (by omega), Nat.add_sub_cancel, hi])
  | fvar hx => exact .fvar hx
  | lam _ ih => exact .lam (ih (n + 1))
  | app _ _ ihf iha => exact .app (ihf n) (iha n)
  | pair _ _ iha ihb => exact .pair (iha n) (ihb n)
  | fst _ ih => exact .fst (ih n)
  | snd _ ih => exact .snd (ih n)
  | tt => exact .tt
  | ff => exact .ff
  | cond _ _ _ ihc iht ihe => exact .cond (ihc n) (iht n) (ihe n)
  | zero => exact .zero
  | succ _ ih =>
    rw [Term.shiftBy_succ]
    exact .succ (ih n)
  | natRec _ _ _ ihb ihs ihn => exact .natRec (ihb n) (ihs n) (ihn n)

/-- A term of the type of a binder may be put for its variable, whatever binders lie inside of it
and around it. -/
theorem Typing.subst {const : Ident → Ty → Prop} {Γ Δ : List Ty} {b a : Term} {A B : Ty}
    (hb : Typing const (Γ ++ A :: Δ) b B) (ha : Typing const (Γ ++ Δ) a A) :
    Typing const (Γ ++ Δ) (b.subst Γ.length a) B := by
  generalize hΓ : Γ ++ A :: Δ = Θ at hb
  induction hb generalizing Γ a with
  | @bvar _ i B hi =>
    subst hΓ
    rw [Term.subst_bvar, Traversal.replaceIndex]
    -- the index belongs to a binder inside, is the one replaced, or belongs to a binder around
    rcases Nat.lt_trichotomy i Γ.length with hlt | rfl | hgt
    · rw [if_neg (by omega), if_neg (by omega)]
      rw [List.getElem?_append_left hlt] at hi
      exact .bvar (by rw [List.getElem?_append_left hlt, hi])
    · rw [if_pos rfl]
      have hAB : A = B := by simpa using hi
      exact hAB ▸ ha
    · rw [if_neg (by omega), if_pos hgt]
      obtain ⟨j, rfl⟩ : ∃ j, i = Γ.length + (j + 1) := ⟨i - Γ.length - 1, by omega⟩
      rw [List.getElem?_append_right (by omega), Nat.add_sub_cancel_left,
        List.getElem?_cons_succ] at hi
      refine .bvar ?_
      show (Γ ++ Δ)[Γ.length + j]? = some B
      rw [List.getElem?_append_right (by omega), Nat.add_sub_cancel_left, hi]
  | fvar hx => exact .fvar hx
  | @lam _ b C B _ ih =>
    have hinner : C :: Γ ++ A :: Δ = C :: _ := congrArg (List.cons C) hΓ
    exact .lam (ih (ha.shift 0 C) hinner)
  | app _ _ ihf iha => exact .app (ihf ha hΓ) (iha ha hΓ)
  | pair _ _ iha ihb => exact .pair (iha ha hΓ) (ihb ha hΓ)
  | fst _ ih => exact .fst (ih ha hΓ)
  | snd _ ih => exact .snd (ih ha hΓ)
  | tt => exact .tt
  | ff => exact .ff
  | cond _ _ _ ihc iht ihe => exact .cond (ihc ha hΓ) (iht ha hΓ) (ihe ha hΓ)
  | zero => exact .zero
  | succ _ ih =>
    rw [Term.subst_succ]
    exact .succ (ih ha hΓ)
  | natRec _ _ _ ihb ihs ihn => exact .natRec (ihb ha hΓ) (ihs ha hΓ) (ihn ha hΓ)

/-- Contracting a redex keeps its type. -/
theorem Typing.contract {const : Ident → Ty → Prop} {Γ : List Ty} {b a : Term} {A : Ty}
    (h : Typing const Γ (.app (.lam b) a) A) : Typing const Γ (b.subst 0 a) A := by
  cases h with
  | app hf ha =>
    cases hf with
    | lam hb => exact Typing.subst (Γ := []) hb ha

/-! ## Constants -/

/-- Definitions may be put in for constants at whose types they are typed themselves; what is left
of the constants has to be allowed. -/
theorem Typing.substConsts {const const' : Ident → Ty → Prop} {Γ : List Ty} {t : Term} {A : Ty}
    (h : Typing const Γ t A) {s : ConstSubst} (hs : s.Closed)
    (hdefined : ∀ x d B, s.get? x = some d → const x B → Typing const' [] d B)
    (hkept : ∀ x B, s.get? x = none → const x B → const' x B) :
    Typing const' Γ (t.substConsts s) A := by
  induction h with
  | bvar hi => exact .bvar hi
  | @fvar Γ x A hx =>
    rw [Term.substConsts_fvar]
    cases hd : s.get? x with
    | none => exact .fvar (hkept x A hd hx)
    | some d => exact (hdefined x d A hd hx).weaken Γ
  | lam _ ih =>
    rw [Term.substConsts_lam, hs.lift_eq]
    exact .lam ih
  | app _ _ ihf iha => exact .app ihf iha
  | pair _ _ iha ihb => exact .pair iha ihb
  | fst _ ih => exact .fst ih
  | snd _ ih => exact .snd ih
  | tt => exact .tt
  | ff => exact .ff
  | cond _ _ _ ihc iht ihe => exact .cond ihc iht ihe
  | zero => exact .zero
  | succ _ ih =>
    rw [Term.substConsts_succ]
    exact .succ ih
  | natRec _ _ _ ihb ihs ihn => exact .natRec ihb ihs ihn

namespace Context

theorem apply_compose (Γ : Context) (r s : Subst) :
    Γ.apply (r.compose s) = (Γ.apply r).apply s := by
  simp only [apply, List.map_map]
  congr 2
  funext A
  exact Subst.apply_compose r s A

@[simp] theorem apply_empty (Γ : Context) : Γ.apply ∅ = Γ := by
  have hbound : Γ.bound.map (∅ : Subst).apply = Γ.bound := by
    rw [show (∅ : Subst).apply = id from funext Subst.apply_empty, List.map_id]
  rw [apply, hbound]

/-- A substitution that binds no variable of a declaration keeps a typing in a context. -/
theorem Types.apply {Γ : Context} {t : Term} {A : Ty} (h : Γ.Types t A) {s : Subst}
    (hs : ∀ x ∈ Γ.declaredVars, s.get? x = none) : (Γ.apply s).Types t (s.apply A) := by
  refine Typing.apply h s fun c B hc => ?_
  have hB : s.apply B = B := Subst.apply_of_unbound fun x hx =>
    hs x ((mem_declaredVars Γ x).mpr ⟨c, B, hc, hx⟩)
  rw [hB]
  exact hc

end Context

end SystemT
