import SystemT.Proofs.Inference.Principal

/-!
# Inference and expanded constants

A declared constant has one type, whose variables stand for fixed unknown types. A definition that
is put in for it is inferred anew at every place, in a context that was refined on the way, and with
variables of its own. So no two of these runs answer the same. But the definition can have the
declared type at each place (`ConstSubst.Implements.typing`), so that expansion keeps the typing
that was found for the term, and inference finds one that is at least as general.
-/

namespace SystemT

/-- Each definition is for a constant that `Γ` declares; checked without the slots of `Γ`, it gets a
type that the declared one is an instance of, with the variables of declarations left as they
are. -/
def ConstSubst.Implements (s : ConstSubst) (Γ : Context) : Prop :=
  ∀ x d, s.get? x = some d → ∃ A r, Γ.lookup? x = some A ∧ typeCheck d ⟨[], Γ.free⟩ = .ok r ∧
    ∃ ρ : Subst, ρ.Fixes Γ.declaredVars ∧ ρ.apply r.ty = A

namespace ConstSubst.Implements

variable {s : ConstSubst} {Γ : Context} (hs : s.Implements Γ)

include hs

/-- A definition has the type of the constant that it is for. -/
theorem typing {x : Ident} {d : Term} {A : Ty} (hd : s.get? x = some d)
    (hx : Γ.lookup? x = some A) : Typing (fun y B => Γ.lookup? y = some B) [] d A := by
  obtain ⟨A', r, hx', hr, ρ, hρ, rfl⟩ := hs x d hd
  obtain rfl : ρ.apply r.ty = A := Option.some.inj (hx'.symm.trans hx)
  have hr : Typing (fun y B => Γ.lookup? y = some B) [] d r.ty :=
    typing_of_typeCheck (Γ := ⟨[], Γ.free⟩) rfl hr
  refine Typing.apply hr ρ fun y B hy => ?_
  -- declared types consist of variables that `ρ` leaves alone
  have hB : ρ.apply B = B := hρ.apply_eq fun z hz =>
    (Context.mem_declaredVars Γ z).mpr ⟨y, B, hy, hz⟩
  rw [hB, hy]

theorem closed : s.Closed := by
  intro x d hd
  obtain ⟨A, -, hx, -⟩ := hs x d hd
  exact (hs.typing hd hx).closedAt

end ConstSubst.Implements

/-- Expansion keeps a typing under any substitution for the slots. -/
theorem Context.Types.substConsts {Γ : Context} {t : Term} {θ : Subst} {A : Ty}
    (h : (Γ.apply θ).Types t A) {s : ConstSubst} (hs : s.Implements Γ) :
    (Γ.apply θ).Types (t.substConsts s) A :=
  Typing.substConsts h hs.closed (fun _ _ _ hd hx => hs.typing hd hx) fun _ _ _ hx => hx

/-- **Expansion keeps types.** Definitions that implement declarations of `Γ` may be put into a term
that has a type: what is answered for the expanded term is at least as general, unless more
variables are needed than there are. The expansion itself fails only for a definition whose binders
cannot be counted. -/
theorem typeCheck_substConsts {Γ : Context} {t : Term} {r : Inferred} {s : ConstSubst}
    (h : typeCheck t Γ = .ok r) (hs : s.Implements Γ) :
    ((∃ r', typeCheck (t.substConsts s) Γ = .ok r' ∧ r'.MoreGeneral Γ r) ∨
      (typeCheck (t.substConsts s) Γ = .error (.fault .counterOverflow) ∧
        Γ.Exhausts (t.substConsts s))) ∧
    (t.substConsts? s = .ok (t.substConsts s) ∨
      (t.substConsts? s = .error .indexOverflow ∧
        ∃ x d, s.get? x = some d ∧ indexLimit ≤ d.nesting)) :=
  ⟨moreGeneral_of_types h ((typeCheck_sound h).substConsts hs),
    Term.substConsts?_cases hs.closed t⟩

/-- The constant `id : nat → nat` is used twice below a binder, once as the argument of a function
of unknown type. The identity that is put in for it is more general, and the uses no longer have to
agree. -/
theorem typeCheck_substConsts_id :
    ∃ Γ : Context, Γ = ⟨[.var (.fresh 3)],
        ((∅ : IdentMap Ty).insert (.named "id") (.arrow .nat .nat)).insert (.named "k")
          (.var (.named "R"))⟩ ∧
      ∃ t s r r', t = Term.lam (.pair (.app (.fvar (.named "id")) (.bvar 0))
          (.app (.bvar 1) (.pair (.fvar (.named "id")) (.fvar (.named "k"))))) ∧
        s = (∅ : ConstSubst).insert (.named "id") (.lam (.bvar 0)) ∧
        typeCheck t Γ = .ok r ∧ s.Implements Γ ∧
        r.ty = .arrow .nat (.prod .nat (.var (.fresh 6))) ∧
        t.substConsts? s = .ok (t.substConsts s) ∧
        typeCheck (t.substConsts s) Γ = .ok r' ∧ r'.MoreGeneral Γ r ∧
        r'.ty = .arrow (.var (.fresh 6)) (.prod (.var (.fresh 6)) (.var (.fresh 8))) := by
  obtain ⟨Γ, hΓ⟩ : ∃ Γ : Context, Γ = ⟨[.var (.fresh 3)],
    ((∅ : IdentMap Ty).insert (.named "id") (.arrow .nat .nat)).insert (.named "k")
      (.var (.named "R"))⟩ := ⟨_, rfl⟩
  have hid : typeCheck (.lam (.bvar 0)) ⟨[], Γ.free⟩ =
      .ok ⟨∅, .arrow (.var (.fresh 0)) (.var (.fresh 0))⟩ := by
    subst hΓ
    rw [typeCheck_eq]
    cbv
  have hfixes : (Subst.singleton (.fresh 0) .nat).Fixes Γ.declaredVars := by
    have hdeclared : Γ.declaredVars.toList = [.named "R"] := by
      subst hΓ
      cbv
    intro x hx
    have hx : x ∈ Γ.declaredVars.toList := Std.ExtTreeSet.mem_toList.mpr hx
    rw [hdeclared] at hx
    obtain rfl := List.mem_singleton.mp hx
    cbv
  have hs : ((∅ : ConstSubst).insert (.named "id") (.lam (.bvar 0))).Implements Γ := by
    intro x d hd
    rw [ConstSubst.get?_insert, ConstSubst.get?_empty] at hd
    split at hd
    case isFalse => cases hd
    case isTrue hx =>
      cases hd
      subst hx
      refine ⟨.arrow .nat .nat, _, ?_, hid, _, hfixes, ?_⟩
      · subst hΓ
        cbv
      · cbv
  have h : typeCheck (.lam (.pair (.app (.fvar (.named "id")) (.bvar 0))
      (.app (.bvar 1) (.pair (.fvar (.named "id")) (.fvar (.named "k")))))) Γ =
      .ok ⟨.ofList [
          (.fresh 3, .arrow (.prod (.arrow .nat .nat) (.var (.named "R"))) (.var (.fresh 6))),
          (.fresh 4, .nat), (.fresh 5, .nat)],
        .arrow .nat (.prod .nat (.var (.fresh 6)))⟩ := by
    subst hΓ
    rw [typeCheck_eq]
    cbv
  have h' : typeCheck ((Term.lam (.pair (.app (.fvar (.named "id")) (.bvar 0))
      (.app (.bvar 1) (.pair (.fvar (.named "id")) (.fvar (.named "k")))))).substConsts
        ((∅ : ConstSubst).insert (.named "id") (.lam (.bvar 0)))) Γ =
      .ok ⟨.ofList [(.fresh 3, .arrow (.prod (.arrow (.var (.fresh 7)) (.var (.fresh 7)))
            (.var (.named "R"))) (.var (.fresh 8))),
          (.fresh 4, .var (.fresh 6)), (.fresh 5, .var (.fresh 6))],
        .arrow (.var (.fresh 6)) (.prod (.var (.fresh 6)) (.var (.fresh 8)))⟩ := by
    subst hΓ
    rw [typeCheck_eq]
    cbv
  obtain ⟨hgeneral, hexpand⟩ := typeCheck_substConsts h hs
  refine ⟨Γ, hΓ, _, _, _, _, rfl, rfl, h, hs, rfl, ?_, h', ?_, rfl⟩
  · refine hexpand.resolve_right ?_
    rintro ⟨-, x, d, hd, hlimit⟩
    rw [ConstSubst.get?_insert, ConstSubst.get?_empty] at hd
    split at hd
    · cases hd
      exact absurd hlimit (by decide)
    · cases hd
  · rcases hgeneral with ⟨r', hr', hgeneral⟩ | ⟨hfault, -⟩
    · rw [h'] at hr'
      cases hr'
      exact hgeneral
    · rw [h'] at hfault
      cases hfault

end SystemT
